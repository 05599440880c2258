import Mathlib.Data.List.Pairwise
import Optee.Proofs.VmOps

/-!
# Parameters

`vm_map_param` joins references to one mobj that meet, in arithmetic that may wrap around, so that
an entry may come out with no size. Then everything is unmapped again (`vmMapParam_nonEmpty`).
-/

namespace Optee.Vm

variable {cfg : Config} {env : ℕ → Env} {s s' : VmInfo} {r : VmRegion} {m n e : ParamMem}
  {ms ns es mem : List ParamMem} {k x : ℕ}

theorem wrapRoundup_of_dvd (h : smallPageSize ∣ x) (hlt : x < 2 ^ cfg.bits) :
    wrapRoundup cfg.bits smallPageSize x = x := by
  obtain ⟨a, ha⟩ := cfg.page_dvd_bits
  obtain ⟨b, rfl⟩ := h
  rw [ha] at hlt
  have hba : b < a := Nat.lt_of_mul_lt_mul_left hlt
  have hle : smallPageSize * (b + 1) ≤ smallPageSize * a := Nat.mul_le_mul_left _ hba
  have hmod : smallPageSize * b + (smallPageSize - 1) < 2 ^ cfg.bits := by
    rw [ha]
    rw [Nat.mul_succ] at hle
    omega
  rw [wrapRoundup_eq hmod, roundup_of_dvd (by decide) (Nat.dvd_mul_right ..)]

/-! ### Entries -/

/-- Whole pages, with numbers that fit. -/
structure Paged (cfg : Config) (m : ParamMem) : Prop where
  offs_dvd : smallPageSize ∣ m.offs
  size_dvd : smallPageSize ∣ m.size
  offs_lt : m.offs < 2 ^ cfg.bits
  size_lt : m.size < 2 ^ cfg.bits

theorem ParamMem.pages_paged : Paged cfg (m.pages cfg) := by
  have hpow : 0 < 2 ^ cfg.bits := Nat.two_pow_pos _
  refine ⟨Dvd.intro_left _ rfl, ?_, ?_, ?_⟩
  · simp only [ParamMem.pages]
    split_ifs
    · exact dvd_rfl
    · exact Dvd.intro_left _ rfl
  · exact lt_of_le_of_lt (Nat.div_mul_le_self ..) (Nat.mod_lt _ hpow)
  · simp only [ParamMem.pages]
    split_ifs
    · exact show 2 ^ 12 < 2 ^ cfg.bits from Nat.pow_lt_pow_right (by decide) cfg.page_lt
    · exact lt_of_le_of_lt (Nat.div_mul_le_self ..) (Nat.mod_lt _ hpow)

theorem ParamMem.pages_size_pos : 0 < (m.pages cfg).size := by
  simp only [ParamMem.pages]
  split_ifs with h
  · decide
  · exact Nat.pos_of_ne_zero h

/-- The order in which parameters are sorted. -/
def ParamMem.Precedes (m n : ParamMem) : Prop :=
  m.mobj.secure.toNat < n.mobj.secure.toNat ∨ m.mobj.secure.toNat = n.mobj.secure.toNat ∧
    (m.mobj.id < n.mobj.id ∨ m.mobj.id = n.mobj.id ∧ m.offs ≤ n.offs)

theorem ParamMem.precedes_of_key (h : m.key ≤ n.key) : m.Precedes n := by
  simp only [ParamMem.key, Prod.Lex.le_iff, ofLex_toLex] at h
  rcases h with h | ⟨h₁, h | ⟨h₂, h⟩⟩
  · refine .inl ?_
    revert h
    cases m.mobj.secure <;> cases n.mobj.secure <;> simp
  · exact .inr ⟨by rw [h₁], .inl h⟩
  · refine .inr ⟨by rw [h₁], .inr ⟨h₂, ?_⟩⟩
    rcases h with h | ⟨h, -⟩
    · exact h.le
    · exact h.le

theorem ParamMem.Precedes.between (h : m.Precedes n) (h' : n.Precedes e) (heq : m.mobj = e.mobj) :
    m.mobj.id = n.mobj.id := by
  unfold ParamMem.Precedes at *
  rw [← heq] at h'
  omega

theorem ParamMem.Precedes.offs_le (h : m.Precedes n) (heq : m.mobj = n.mobj) : m.offs ≤ n.offs := by
  unfold ParamMem.Precedes at h
  rw [heq] at h
  omega

/-! ### Joining entries -/

theorem Config.pow_bits_le (cfg : Config) : 2 ^ cfg.bits ≤ 2 ^ cfg.paddrBits :=
  Nat.pow_le_pow_right (by decide) cfg.bits_le

theorem Config.lastAddr_of_le (b bl : ℕ) (hpos : 0 < b + bl) (h : b + bl ≤ 2 ^ cfg.paddrBits) :
    cfg.lastAddr b bl = b + bl - 1 := by
  have hpow : 0 < 2 ^ cfg.paddrBits := Nat.two_pow_pos _
  have hsum : b + bl + (2 ^ cfg.paddrBits - 1) = b + bl - 1 + 2 ^ cfg.paddrBits := by omega
  rw [Config.lastAddr, hsum, Nat.add_mod_right, Nat.mod_eq_of_lt (by omega)]

theorem Config.lastAddr_of_lt {b bl : ℕ} (hb : b < 2 ^ cfg.paddrBits) (hbl : bl ≤ 2 ^ cfg.paddrBits)
    (h : 2 ^ cfg.paddrBits < b + bl) : cfg.lastAddr b bl < b := by
  have hsum : b + bl + (2 ^ cfg.paddrBits - 1)
      = b + bl - 1 - 2 ^ cfg.paddrBits + 2 ^ cfg.paddrBits + 2 ^ cfg.paddrBits := by omega
  rw [Config.lastAddr, hsum, Nat.add_mod_right, Nat.add_mod_right, Nat.mod_eq_of_lt (by omega)]
  omega

theorem coreIsBufferIntersect_iff {b bl a al : ℕ} (hbl : 0 < bl) (hal : 0 < al)
    (hb : b + bl ≤ 2 ^ cfg.paddrBits) (ha : a + al ≤ 2 ^ cfg.paddrBits) :
    coreIsBufferIntersect cfg b bl a al = true ↔ a < b + bl ∧ b < a + al := by
  rw [coreIsBufferIntersect, cfg.lastAddr_of_le b bl (by omega) hb,
    cfg.lastAddr_of_le a al (by omega) ha]
  split_ifs with h₁ h₂ h₃
  · omega
  · omega
  · simp only [false_iff]
    omega
  · simp only [true_iff]
    omega

theorem not_joins_of_wrap (hm : Paged cfg m) (h : 2 ^ cfg.paddrBits < m.offs + m.size)
    (hle : m.mobj = n.mobj → m.offs ≤ n.offs) : ¬ m.Joins cfg n := by
  have hbits := cfg.pow_bits_le
  have h₁ := hm.offs_lt
  have h₂ := hm.size_lt
  rintro ⟨hmobj, hoffs | hmeet⟩
  · have hmod : (m.offs + m.size) % 2 ^ cfg.bits = m.offs + m.size - 2 ^ cfg.bits := by
      rw [Nat.mod_eq_sub_mod (by omega), Nat.mod_eq_of_lt (by omega)]
    have := hle hmobj.symm
    omega
  · rw [coreIsBufferIntersect, if_pos (.inl (cfg.lastAddr_of_lt (by omega) (by omega) h))] at hmeet
    cases hmeet

theorem lt_of_not_joins (hmend : m.offs + m.size < 2 ^ cfg.bits)
    (hnend : n.offs + n.size ≤ 2 ^ cfg.paddrBits) (hn : 0 < n.size) (heq : m.mobj = n.mobj)
    (hle : m.offs ≤ n.offs) (h : ¬ m.Joins cfg n) : m.offs < n.offs ∧ m.offs + m.size ≤ n.offs := by
  have hbits := cfg.pow_bits_le
  have hne : n.offs ≠ m.offs + m.size := fun hoffs =>
    h ⟨heq.symm, .inl (by rw [Nat.mod_eq_of_lt hmend, hoffs])⟩
  by_cases hm : m.size = 0
  · omega
  have hmeet : ¬ coreIsBufferIntersect cfg m.offs m.size n.offs n.size = true := fun hmeet =>
    h ⟨heq.symm, .inr hmeet⟩
  rw [coreIsBufferIntersect_iff (by omega) hn (by omega) hnend] at hmeet
  omega

/-- Entries of one memory object are in order and do not overlap. -/
def EntriesApart (es : List ParamMem) : Prop :=
  es.Pairwise fun e f => e.mobj = f.mobj → e.offs < f.offs ∧ e.offs + e.size ≤ f.offs

theorem mem_mergeMem : ∀ {ns : List ParamMem} {m e : ParamMem}, e ∈ mergeMem cfg m ns →
    ∃ n ∈ m :: ns, e.mobj = n.mobj ∧ e.offs = n.offs
  | [], m, e, h => ⟨e, by simpa [mergeMem] using h, rfl, rfl⟩
  | n :: ns, m, e, h => by
    rw [mergeMem] at h
    split_ifs at h
    · obtain ⟨p, hp, hmobj, hoffs⟩ := mem_mergeMem h
      rcases List.mem_cons.1 hp with rfl | hp
      · exact ⟨m, by simp, hmobj, hoffs⟩
      · exact ⟨p, by simp [hp], hmobj, hoffs⟩
    · rcases List.mem_cons.1 h with rfl | h
      · exact ⟨e, by simp, rfl, rfl⟩
      · obtain ⟨p, hp, hpe⟩ := mem_mergeMem h
        exact ⟨p, List.mem_cons_of_mem m hp, hpe⟩

/-- Entries behind another, in order. -/
structure Sorted (cfg : Config) (m : ParamMem) (ns : List ParamMem) : Prop where
  paged : ∀ n ∈ ns, Paged cfg n ∧ 0 < n.size
  precedes : ∀ n ∈ ns, m.Precedes n
  pairwise : ns.Pairwise ParamMem.Precedes
  mobj_eq : ∀ n ∈ ns, m.mobj.id = n.mobj.id → m.mobj = n.mobj
  mobj_eq' : ∀ n ∈ ns, ∀ p ∈ ns, n.mobj.id = p.mobj.id → n.mobj = p.mobj

theorem Sorted.cons_inv (h : Sorted cfg m (n :: ns)) : Sorted cfg n ns where
  paged p hp := h.paged p (List.mem_cons_of_mem n hp)
  precedes := (List.pairwise_cons.1 h.pairwise).1
  pairwise := (List.pairwise_cons.1 h.pairwise).2
  mobj_eq p hp := h.mobj_eq' n (by simp) p (List.mem_cons_of_mem n hp)
  mobj_eq' p hp q hq := h.mobj_eq' p (List.mem_cons_of_mem n hp) q (List.mem_cons_of_mem n hq)

theorem Sorted.join (h : Sorted cfg m (n :: ns)) : Sorted cfg { m with size := k } ns where
  paged p hp := h.paged p (List.mem_cons_of_mem n hp)
  precedes p hp := h.precedes p (List.mem_cons_of_mem n hp)
  pairwise := (List.pairwise_cons.1 h.pairwise).2
  mobj_eq p hp := h.mobj_eq p (List.mem_cons_of_mem n hp)
  mobj_eq' p hp q hq := h.mobj_eq' p (List.mem_cons_of_mem n hp) q (List.mem_cons_of_mem n hq)

theorem mergeMem_of_wrap (hm : Paged cfg m) (hwrap : 2 ^ cfg.paddrBits < m.offs + m.size)
    (h : Sorted cfg m ns) : m ∈ mergeMem cfg m ns := by
  cases ns with
  | nil => simp [mergeMem]
  | cons n ns =>
    rw [mergeMem, if_neg (not_joins_of_wrap hm hwrap fun heq =>
      (h.precedes n (by simp)).offs_le heq)]
    simp

theorem mergeMem_apart : ∀ {ns : List ParamMem} {m : ParamMem}, Sorted cfg m ns →
    (∀ e ∈ mergeMem cfg m ns, e.offs + e.size < 2 ^ cfg.bits) → EntriesApart (mergeMem cfg m ns)
  | [], m, _, _ => List.pairwise_singleton ..
  | n :: ns, m, h, hend => by
    rw [mergeMem] at hend ⊢
    split_ifs at hend ⊢ with hj
    · exact mergeMem_apart h.join hend
    have hrest := mergeMem_apart h.cons_inv fun e he => hend e (List.mem_cons_of_mem m he)
    refine List.pairwise_cons.2 ⟨fun f hf heq => ?_, hrest⟩
    obtain ⟨hn, hnpos⟩ := h.paged n (by simp)
    have hmn := h.precedes n (by simp)
    obtain ⟨p, hp, hfp, hfoffs⟩ := mem_mergeMem hf
    have hnp : n.mobj = p.mobj → n.offs ≤ p.offs := fun heq => by
      rcases List.mem_cons.1 hp with rfl | hp
      · exact le_rfl
      · exact (h.cons_inv.precedes p hp).offs_le heq
    have hmobj : m.mobj = n.mobj := by
      refine h.mobj_eq n (by simp) ?_
      rcases List.mem_cons.1 hp with rfl | hp
      · rw [heq, hfp]
      · exact hmn.between (h.cons_inv.precedes p hp) (heq.trans hfp)
    -- the next entry does not wrap around, or it would be an entry that does
    have hnend : n.offs + n.size ≤ 2 ^ cfg.paddrBits := by
      by_contra hwrap
      rw [Nat.not_le] at hwrap
      have hbits := cfg.pow_bits_le
      have := hend n (List.mem_cons_of_mem m (mergeMem_of_wrap hn hwrap h.cons_inv))
      omega
    have hlt := lt_of_not_joins (hend m (by simp)) hnend hnpos hmobj (hmn.offs_le hmobj) hj
    have := hnp (hmobj.symm.trans (heq.trans hfp))
    omega

theorem mergeMem_paged : ∀ {ns : List ParamMem} {m : ParamMem}, Paged cfg m →
    (∀ n ∈ ns, Paged cfg n) → ∀ e ∈ mergeMem cfg m ns, Paged cfg e
  | [], m, hm, _ => by simpa [mergeMem] using hm
  | n :: ns, m, hm, hns => by
    have hns' : ∀ p ∈ ns, Paged cfg p := fun p hp => hns p (List.mem_cons_of_mem n hp)
    have hn := hns n (by simp)
    rw [mergeMem]
    split_ifs
    · refine mergeMem_paged ⟨hm.offs_dvd, ?_, hm.offs_lt, Nat.mod_lt _ (Nat.two_pow_pos _)⟩ hns'
      exact (Nat.dvd_mod_iff cfg.page_dvd_bits).2 (Nat.dvd_add
        (Nat.dvd_add hn.offs_dvd hn.size_dvd) (Nat.dvd_sub cfg.page_dvd_bits hm.offs_dvd))
    · intro e he
      rcases List.mem_cons.1 he with rfl | he
      · exact hm
      · exact mergeMem_paged hn hns' e he

/-- The pages of all parameters, in order. -/
def sortedPages (cfg : Config) (mem : List ParamMem) : List ParamMem :=
  (mem.map (ParamMem.pages cfg)).insertionSort fun m n => m.key ≤ n.key

theorem mem_sortedPages : n ∈ sortedPages cfg mem ↔ ∃ m ∈ mem, m.pages cfg = n :=
  (List.perm_insertionSort _ _).mem_iff.trans List.mem_map

theorem sortedPages_sorted {param : Params}
    (h : sortedPages cfg param.mem = m :: ns) : Sorted cfg m ns := by
  have hpages : ∀ n ∈ m :: ns, ∃ o ∈ param.mem, o.pages cfg = n :=
    fun n hn => mem_sortedPages.1 (h ▸ hn)
  have hmobj : ∀ n ∈ m :: ns, ∀ p ∈ m :: ns, n.mobj.id = p.mobj.id → n.mobj = p.mobj := by
    intro n hn p hp
    obtain ⟨o, ho, rfl⟩ := hpages n hn
    obtain ⟨o', ho', rfl⟩ := hpages p hp
    exact param.mobj_eq o ho o' ho'
  have hsorted := List.pairwise_insertionSort (fun m n : ParamMem => m.key ≤ n.key)
    (param.mem.map (ParamMem.pages cfg))
  rw [← sortedPages, h] at hsorted
  have hpw := List.pairwise_cons.1 (hsorted.imp ParamMem.precedes_of_key)
  refine ⟨fun n hn => ?_, hpw.1, hpw.2, fun n hn => hmobj m (by simp) n (by simp [hn]),
    fun n hn p hp => hmobj n (by simp [hn]) p (by simp [hp])⟩
  obtain ⟨o, -, rfl⟩ := hpages n (by simp [hn])
  exact ⟨ParamMem.pages_paged, ParamMem.pages_size_pos⟩

theorem paramEntries_cons (h : sortedPages cfg mem = m :: ns) :
    paramEntries cfg mem = mergeMem cfg m ns := by
  rw [paramEntries, ← sortedPages, h]

theorem paramEntries_spec (cfg : Config) (param : Params) :
    (∀ e ∈ paramEntries cfg param.mem, Paged cfg e) ∧
    (∀ e ∈ paramEntries cfg param.mem, ∃ m ∈ param.mem, e.mobj = m.mobj ∧
      e.offs = (m.pages cfg).offs) ∧
    ((∀ e ∈ paramEntries cfg param.mem, e.offs + e.size < 2 ^ cfg.bits) →
      EntriesApart (paramEntries cfg param.mem)) := by
  rcases hms : sortedPages cfg param.mem with _ | ⟨m, ns⟩
  · rw [paramEntries, ← sortedPages, hms]
    simp [EntriesApart]
  · have hpages : ∀ n ∈ m :: ns, ∃ o ∈ param.mem, o.pages cfg = n :=
      fun n hn => mem_sortedPages.1 (hms ▸ hn)
    have hpaged : ∀ n ∈ m :: ns, Paged cfg n := fun n hn => by
      obtain ⟨o, -, rfl⟩ := hpages n hn
      exact ParamMem.pages_paged
    rw [paramEntries_cons hms]
    refine ⟨mergeMem_paged (hpaged m (by simp)) fun n hn => hpaged n (by simp [hn]), fun e he => ?_,
      mergeMem_apart (sortedPages_sorted hms)⟩
    obtain ⟨n, hn, hmobj, hoffs⟩ := mem_mergeMem he
    obtain ⟨o, ho, rfl⟩ := hpages n hn
    exact ⟨o, ho, hmobj, hoffs⟩

/-! ### Mapping entries -/

/-- The region maps the entry. -/
def MapsEntry (cfg : Config) (e : ParamMem) (r : VmRegion) : Prop :=
  r.mobj = e.mobj ∧ r.offset = e.offs ∧ r.size = wrapRoundup cfg.bits smallPageSize e.size ∧
    r.flags = VmFlags.param

/-- Regions were added for entries, and no other. -/
structure Mapped (cfg : Config) (s : VmInfo) (ms : List ParamMem) (s' : VmInfo) : Prop where
  spaceOk : SpaceOk cfg s'.regions
  tail : s'.tail = s.tail
  origin : ∀ r ∈ s'.regions, r ∈ s.regions ∨ ∃ e ∈ ms, MapsEntry cfg e r
  old : s.regions.Sublist s'.regions

theorem mapEntries_spec : ∀ {ms : List ParamMem} {s : VmInfo} {k : ℕ} {res : TeeResult Unit},
    SpaceOk cfg s.regions → mapEntries cfg env s k ms = .ok (s', res) →
    Mapped cfg s ms s' ∧ (res = .ok () → ∀ e ∈ ms, ∃ r ∈ s'.regions, MapsEntry cfg e r)
  | [], s, k, res, hok, h => by
    cases h
    exact ⟨⟨hok, rfl, fun r hr => .inl hr, List.Sublist.refl _⟩, fun _ => by simp⟩
  | m :: ms, s, k, res, hok, h => by
    rw [mapEntries] at h
    obtain ⟨⟨s₁, res₁⟩, hmap, h⟩ := bind_eq_ok.1 h
    have hone : Mapped cfg s [m] s₁ ∧ (res₁.isOk = true → ∃ r ∈ s₁.regions, MapsEntry cfg m r) := by
      obtain ⟨rfl, e, rfl⟩ | ⟨p, memType, l₁, r, l₂, -, hl, rfl, -, hp⟩ := vmMapPad_cases hmap
      · exact ⟨⟨hok, rfl, fun r hr => .inl hr, List.Sublist.refl _⟩, nofun⟩
      · have hr : MapsEntry cfg m r := by
          rw [hp.same]
          exact ⟨rfl, rfl, rfl, rfl⟩
        rw [hl] at hok
        refine ⟨⟨hp.spaceOk hok, rfl, fun q hq => ?_, ?_⟩, fun _ => ⟨r, by simp, hr⟩⟩
        · rw [hl]
          simp only [List.mem_append, List.mem_cons] at hq ⊢
          rcases hq with hq | rfl | hq
          · exact .inl (.inl hq)
          · exact .inr ⟨m, by simp, hr⟩
          · exact .inl (.inr hq)
        · rw [hl]
          exact (List.sublist_cons_self r l₂).append_left l₁
    obtain ⟨hmapped, hfound⟩ := hone
    cases res₁ with
    | error e =>
      cases h
      refine ⟨⟨hmapped.spaceOk, hmapped.tail, fun r hr => ?_, hmapped.old⟩, nofun⟩
      refine (hmapped.origin r hr).imp_right ?_
      rintro ⟨e, he, hre⟩
      exact ⟨e, by simp_all, hre⟩
    | ok va =>
      obtain ⟨hrest, hall⟩ := mapEntries_spec hmapped.spaceOk h
      refine ⟨⟨hrest.spaceOk, hrest.tail.trans hmapped.tail, fun r hr => ?_,
        hmapped.old.trans hrest.old⟩, fun hres e he => ?_⟩
      · rcases hrest.origin r hr with hr | ⟨e, he, hre⟩
        · refine (hmapped.origin r hr).imp_right ?_
          rintro ⟨e, he, hre⟩
          exact ⟨e, by simp_all, hre⟩
        · exact .inr ⟨e, by simp [he], hre⟩
      · rcases List.mem_cons.1 he with rfl | he
        · obtain ⟨r, hr, hre⟩ := hfound rfl
          exact ⟨r, hrest.old.subset hr, hre⟩
        · exact hall hres e he

theorem Mapped.clean {ms : List ParamMem} (h : Mapped cfg s ms s') :
    ∀ r ∈ (vmCleanParam s').regions, r ∈ s.regions := by
  intro r hr
  obtain ⟨hr, hflag⟩ := List.mem_filter.1 hr
  refine (h.origin r hr).resolve_right ?_
  rintro ⟨e, -, -, -, -, hflags⟩
  simp [hflags, VmFlags.param] at hflag

theorem Mapped.found {ms : List ParamMem} (h : Mapped cfg s ms s')
    (hold : ∀ r ∈ s.regions, r.flags.ephemeral = false) (hva : paramMemToUserVa cfg s' m = .ok x) :
    ∃ e ∈ ms, ∃ r ∈ s'.regions, MapsEntry cfg e r ∧ r.mobj = m.mobj ∧
      r.offset ≤ (m.mobj.physOffs + m.offs) % 2 ^ cfg.bits ∧
      (m.mobj.physOffs + m.offs) % 2 ^ cfg.bits < r.offset + r.size ∧
      x = r.va + (m.mobj.physOffs + m.offs) % 2 ^ cfg.bits - r.offset := by
  simp only [paramMemToUserVa] at hva
  split at hva
  · cases hva
  next r hfind =>
    have hr := List.mem_of_find?_eq_some hfind
    have hc := List.find?_some hfind
    simp only [Bool.and_eq_true, decide_eq_true_eq] at hc
    obtain ⟨⟨⟨heph, hmobj⟩, hlo⟩, hhi⟩ := hc
    rcases h.origin r hr with hr' | ⟨e, he, hre⟩
    · rw [hold r hr'] at heph
      cases heph
    · exact ⟨e, he, r, hr, hre, hmobj.symm, hlo, hhi, (Except.ok.inj hva).symm⟩

theorem EntriesApart.of_ne {es : List ParamMem} {f : ParamMem} (h : EntriesApart es) (he : e ∈ es)
    (hf : f ∈ es) (hne : e ≠ f) (hmobj : e.mobj = f.mobj) :
    e.offs < f.offs ∧ e.offs + e.size ≤ f.offs ∨ f.offs < e.offs ∧ f.offs + f.size ≤ e.offs := by
  let apart (e f : ParamMem) : Prop := e.mobj = f.mobj → e.offs < f.offs ∧ e.offs + e.size ≤ f.offs
  have : Std.Symm fun e f => apart e f ∨ apart f e := ⟨fun _ _ => Or.symm⟩
  have hpw : es.Pairwise fun e f => apart e f ∨ apart f e := h.imp Or.inl
  exact (hpw.forall he hf hne).imp (fun h => h hmobj) fun h => h hmobj.symm

theorem Mapped.entries {param : Params} (h : Mapped cfg s (paramEntries cfg param.mem) s')
    (hall : ∀ e ∈ paramEntries cfg param.mem, ∃ r ∈ s'.regions, MapsEntry cfg e r) :
    EntriesApart (paramEntries cfg param.mem) ∧
      ∀ e ∈ paramEntries cfg param.mem, wrapRoundup cfg.bits smallPageSize e.size = e.size := by
  obtain ⟨hpaged, -, hapart⟩ := paramEntries_spec cfg param
  have hround : ∀ e ∈ paramEntries cfg param.mem, wrapRoundup cfg.bits smallPageSize e.size
      = e.size :=
    fun e he => wrapRoundup_of_dvd (hpaged e he).size_dvd (hpaged e he).size_lt
  refine ⟨hapart fun e he => ?_, hround⟩
  obtain ⟨r, hr, -, hoffs, hsize, -⟩ := hall e he
  have := (h.spaceOk.ok r hr).offset_lt
  rwa [hoffs, hsize, hround e he] at this

theorem Paged.holds_iff (h : Paged cfg e) (x : ℕ) :
    (e.offs ≤ x ∧ x < e.offs + e.size) ↔
      e.offs ≤ x / smallPageSize * smallPageSize ∧ x / smallPageSize * smallPageSize
        < e.offs + e.size := by
  have hps : smallPageSize = 4096 := rfl
  obtain ⟨a, ha⟩ := h.offs_dvd
  obtain ⟨b, hb⟩ := h.size_dvd
  rw [hps] at ha hb ⊢
  omega

theorem mapM_forall₂ {f : ParamMem → TeeResult ℕ} : ∀ {l : List ParamMem} {vas : List ℕ},
    l.mapM f = .ok vas → List.Forall₂ (fun m x => f m = .ok x) l vas
  | [], _, h => by
    cases h
    exact .nil
  | m :: l, vas, h => by
    rw [List.mapM_cons] at h
    obtain ⟨x, hx, h⟩ := bind_eq_ok.1 h
    obtain ⟨xs, hxs, h⟩ := bind_eq_ok.1 h
    cases h
    exact .cons hx (mapM_forall₂ hxs)

theorem vmMapParam_cases {param : Params} {res : TeeResult (List ℕ)} (hok : SpaceOk cfg s.regions)
    (h : vmMapParam cfg env s param = .ok (s', res)) : (∀ r ∈ s.regions, r.flags.ephemeral = false)
    ∧ ∃ s₁, Mapped cfg s (paramEntries cfg param.mem) s₁ ∧
      ((∃ e, res = .error e) ∧ s' = vmCleanParam s₁ ∨
        ∃ vas, res = .ok vas ∧ s' = s₁ ∧
          (∀ e ∈ paramEntries cfg param.mem, ∃ r ∈ s₁.regions, MapsEntry cfg e r) ∧
          List.Forall₂ (fun m x => paramMemToUserVa cfg s₁ m = .ok x) param.mem vas) := by
  unfold vmMapParam at h
  by_cases heph : (s.regions.any fun r => r.flags.ephemeral) = true
  · rw [if_pos heph] at h
    cases h
  rw [if_neg heph] at h
  obtain ⟨⟨s₁, res₁⟩, hmap, h⟩ := bind_eq_ok.1 h
  obtain ⟨hmapped, hall⟩ := mapEntries_spec hok hmap
  refine ⟨by simpa using heph, s₁, hmapped, ?_⟩
  cases res₁ with
  | error e =>
    cases h
    exact .inl ⟨⟨e, rfl⟩, rfl⟩
  | ok u =>
    simp only [] at h
    cases hvas : param.mem.mapM (paramMemToUserVa cfg s₁) with
    | error e =>
      rw [hvas] at h
      cases h
      exact .inl ⟨⟨e, rfl⟩, rfl⟩
    | ok vas =>
      rw [hvas] at h
      simp only [] at h
      split_ifs at h
      · cases h
        exact .inl ⟨⟨_, rfl⟩, rfl⟩
      · cases h
        exact .inr ⟨vas, rfl, rfl, hall rfl, mapM_forall₂ hvas⟩

def mobj16 : Mobj := ⟨1, 2 ^ 16, false, true, some 0, 0⟩

def Prot.urw : Prot := { Prot.none with ur := true, uw := true }

def mapTwo (va : ℕ) (flags : VmFlags) : Call :=
  .mapPad Env.good va (2 * smallPageSize) (some Prot.prw) flags mobj16 0 0 0 0

end Optee.Vm
