import Optee.Proofs.TaBusy
import Optee.Proofs.TaRun

/-!
# Cycles of calls

Contexts and the single-instance lock agree with the frames (`Busy`), so `tee_ta_try_set_busy`
refuses a context only where the thread is already inside it (`cycles_refused`).
-/

namespace Optee.TaManager

variable {n : ℕ} {φ : Prop} {s s' : State n} {m m' : Manager n} {t u : Fin n} {a b c : ℕ}
  {pc pc' : Pc} {fs fs' : List Pc} {sdp : Bool} {i : Input} {r : Role}

/-! ## Frames inside a context -/

theorem Inv.inside_cases (h : Inv φ s) (hmem : pc ∈ s.threads t) (hin : pc.inside = some c) :
    pc.ctxRole = some (c, .owes)
      ∨ ∃ a r, pc.role = some (a, r) ∧ (r = .opener ∨ r.locks = 1)
        ∧ (s.mgr.sess a).ctx = some c := by
  have hk := h.frames t pc hmem
  -- the closing frames that are inside the context know it as that of their session
  have hclose : ∀ {a : ℕ} {d : Option (ℕ × Bool)}, d = some (c, true) →
      d.map Prod.fst = (s.mgr.sess a).ctx → (s.mgr.sess a).ctx = some c :=
    fun hd he => by rw [← he, hd]; rfl
  cases pc <;> simp only [Pc.inside, reduceCtorEq, Option.some.injEq] at hin
  case closeClear d => exact .inl (by rw [← hin]; rfl)
  case closeUnlink a d =>
    refine .inr ⟨a, _, rfl, .inr rfl, hclose ?_ (hk a _ rfl).2⟩
    split at hin <;> simp_all
  case closeUnlinkWait a d =>
    refine .inr ⟨a, _, rfl, .inr rfl, hclose ?_ (hk a _ rfl).2⟩
    split at hin <;> simp_all
  case closeFree a d =>
    refine .inr ⟨a, _, rfl, .inr rfl, hclose ?_ (hk a _ rfl).2⟩
    split at hin <;> simp_all
  all_goals
    have hk := hk _ _ rfl
    simp only [Pc.Knows, hin] at hk
    first
      | exact .inr ⟨_, _, rfl, .inl rfl, hk⟩
      | exact .inr ⟨_, _, rfl, .inl rfl, hk.1⟩
      | exact .inr ⟨_, _, rfl, .inr rfl, hk⟩
      | exact .inr ⟨_, _, rfl, .inr rfl, hk.1⟩

theorem Inv.inside_lt (h : Inv φ s) (hin : c ∈ s.inside t) : c < s.mgr.nextCtx := by
  obtain ⟨pc, hmem, hpc⟩ := List.mem_filterMap.1 hin
  obtain hrole | ⟨a, r, hr, -, hc⟩ := h.inside_cases hmem hpc
  · exact h.ctxs.fresh t (c, .owes) (List.mem_filterMap.2 ⟨pc, hmem, hrole⟩)
  · exact h.ctxs.sess a (h.reg.fresh t (a, r) (List.mem_filterMap.2 ⟨pc, hmem, hr⟩)) c hc

theorem Inv.inside_same (h : Inv φ s) (ht : s.threads t = pc :: fs) (hr : pc.role = some (a, r))
    (hc : (s.mgr.sess a).ctx = some c) (hpc : pc.inside = none)
    (hone : att s.mgr c + (ctxHasOf s.mgr s.ctxRoles c).owes ≤ 1) (hu : c ∈ s.inside u) :
    r ≠ .opener ∧ (r.locks = 1 → u = t) := by
  obtain ⟨pc', hmem, hin⟩ := List.mem_filterMap.1 hu
  obtain ⟨ha, hf⟩ := h.live ht hr
  have hpos := att_pos ha hf hc
  obtain howes | ⟨b, r', hr', hkind, hcb⟩ := h.inside_cases hmem hin
  · have hq : (c, CtxRole.owes) ∈ s.ctxRoles u := List.mem_filterMap.2 ⟨pc', hmem, howes⟩
    have hle := le_total (f := held (fun r => if r = CtxRole.owes then 1 else 0) c) hq
    simp only [held, if_true] at hle
    simp only [ctxHasOf] at hone
    omega
  have hrb : (b, r') ∈ s.roles u := List.mem_filterMap.2 ⟨pc', hmem, hr'⟩
  obtain rfl := att_le_one (by omega) ha hf hc (h.reg.fresh _ _ hrb) (h.reg.not_freed hrb) hcb
  have hR : s.roles t = (a, r) :: fs.filterMap Pc.role := by rw [roles_cons ht, hr]; rfl
  have hother : (a, r') ∈ Function.update s.roles t (fs.filterMap Pc.role) u := by
    rcases eq_or_ne u t with rfl | hne
    · rw [ht] at hmem
      rcases List.mem_cons.1 hmem with rfl | hmem
      · rw [hpc] at hin
        cases hin
      · rw [Function.update_self]
        exact List.mem_filterMap.2 ⟨pc', hmem, hr'⟩
    · rwa [Function.update_of_ne hne]
  refine ⟨fun ho => h.reg.opener_alone hR hother (.inl ho), fun hl => ?_⟩
  obtain ho | hl' := hkind
  · exact (h.reg.opener_alone hR hother (.inr ho)).elim
  · have ht' := h.reg.lock_eq (mem_roles ht hr) hl
    exact Option.some.inj ((h.reg.lock_eq hrb hl').symm.trans ht')

theorem Inv.loads_outside (h : Inv φ s) (ht : s.threads t = pc :: fs)
    (hpc : pc.ctxRole = some (c, .loads)) : c ∉ s.inside u := by
  intro hu
  have hq := mem_ctxRoles ht hpc
  have hok := h.ctxs.ok c (h.ctxs.fresh _ _ hq)
  have hload : 0 < (ctxHasOf s.mgr s.ctxRoles c).loads := by
    have hle := le_total (f := held (fun r => if r = CtxRole.loads then 1 else 0) c) hq
    simp only [held, if_true] at hle
    exact hle
  have hz : (s.mgr.ctx c).destroys = 0 := by
    by_contra hd
    have := (hok.gone (by omega)).2.2.1
    omega
  have hone : att s.mgr c + (ctxHasOf s.mgr s.ctxRoles c).owes ≤ 1 :=
    ((hok.refs hz).symm.trans (hok.loads hload).2.1).le
  have hk := h.frames t pc (ht ▸ List.mem_cons_self)
  cases pc with
  | initStmm x a d =>
    cases hpc
    exact (h.inside_same ht rfl (hk a _ rfl).1 rfl hone hu).1 rfl
  | initUser x a d =>
    cases hpc
    exact (h.inside_same ht rfl (hk a _ rfl).1 rfl hone hu).1 rfl
  | drain d destroy => cases destroy <;> cases hpc
  | _ => cases hpc

/-! ## Busy contexts -/

/-- Busy flags and the lock are right for what threads are inside. -/
structure Busy (s : State n) : Prop where
  exclusive : Exclusive (fun c => (s.mgr.ctx c).flags) (fun c => (s.mgr.ctx c).busy) s.mgr.lock
    s.inside
  quiet : ∀ c, (s.mgr.ctx c).flags.concurrent = true → (s.mgr.ctx c).busy = false

theorem Busy.empty : Busy (.empty : State n) :=
  ⟨Exclusive.idle fun _ => rfl, fun _ _ => rfl⟩

theorem Busy.idle (h : Busy s) (hno : ∀ u, c ∉ s.inside u) : (s.mgr.ctx c).busy = false := by
  rcases hc : (s.mgr.ctx c).flags.concurrent with - | -
  · exact h.exclusive.busy_of_outside hc hno
  · exact h.quiet c hc

theorem flags_of_update {x : Bool}
    (hctx : m'.ctx = Function.update m.ctx c { m.ctx c with busy := x }) :
    (fun d => (m'.ctx d).flags) = fun d => (m.ctx d).flags := by
  funext d
  rw [hctx, Function.update_apply]
  split_ifs with hd
  · rw [hd]
  · rfl

theorem busy_of_update {x : Bool}
    (hctx : m'.ctx = Function.update m.ctx c { m.ctx c with busy := x }) :
    (fun d => (m'.ctx d).busy) = Function.update (fun d => (m.ctx d).busy) c x := by
  funext d
  rw [hctx, Function.update_apply, Function.update_apply]
  split_ifs <;> rfl

theorem inside_cons (ht : s.threads t = pc :: fs) :
    s.inside t = pc.inside.toList ++ fs.filterMap Pc.inside := by
  unfold State.inside
  rw [ht, List.filterMap_cons]
  cases pc.inside <;> rfl

/-- A step of this kind keeps the busy flags and the lock right. -/
theorem BusyStep.busy (hs : BusyStep s.mgr t pc m' fs') (h : Inv φ s) (hb : Busy s)
    (ht : s.threads t = pc :: fs) : Busy ⟨m', Function.update s.threads t (fs' ++ fs)⟩ := by
  have hin' : State.inside ⟨m', Function.update s.threads t (fs' ++ fs)⟩
      = Function.update s.inside t (fs'.filterMap Pc.inside ++ fs.filterMap Pc.inside) :=
    filterMap_pop Pc.inside
  have hcons := inside_cons ht
  cases hs with
  | same hlock hbusy hflags hin =>
    rw [hin, ← hcons, Function.update_eq_self] at hin'
    have hch : ∀ d, (m'.ctx d).flags = (s.mgr.ctx d).flags
        ∨ (s.mgr.ctx d).busy = false ∧ ∀ u, d ∉ s.inside u := by
      intro d
      rcases hflags d with hfl | hload | rfl
      · exact .inl hfl
      · have hno : ∀ u, d ∉ s.inside u := fun u => h.loads_outside ht hload
        exact .inr ⟨hb.idle hno, hno⟩
      · exact .inr ⟨by rw [h.ctxs.unused _ le_rfl]; rfl, fun u hu => (h.inside_lt hu).false⟩
    refine ⟨?_, fun d hd => ?_⟩
    · rw [hin']
      simp only [hlock, hbusy]
      exact hb.exclusive.of_flags hch
    · rw [hbusy d]
      rcases hch d with hfl | ⟨hidle, -⟩
      · exact hb.quiet d (hfl ▸ hd)
      · exact hidle
  | enter c rc busy l hpc htry hctx hlock hin =>
    have hrest : fs.filterMap Pc.inside = s.inside t := by rw [hcons, hpc]; rfl
    rw [hin, hrest] at hin'
    have hfl := flags_of_update hctx
    have hbu := busy_of_update hctx
    refine ⟨?_, fun d hd => ?_⟩
    · simp only [hin', hfl, hbu, hlock]
      cases rc with
      | true => exact hb.exclusive.enter htry
      | false =>
        obtain ⟨rfl, rfl, -⟩ := hb.exclusive.refused htry
        rw [Function.update_eq_self, if_neg (by simp), List.nil_append, Function.update_eq_self]
        exact hb.exclusive
    · have hd' : (s.mgr.ctx d).flags.concurrent = true := (congrFun hfl d) ▸ hd
      refine (congrFun hbu d).trans ?_
      rw [Function.update_apply]
      split_ifs with hdc
      · subst hdc
        have hq := hb.quiet d hd'
        simp only [teeTaTrySetBusy, hd', if_true, Section.done.injEq, Prod.mk.injEq] at htry
        rw [← htry.2.1, hq]
      · exact hb.quiet d hd'
  | leave c busy l hpc hclear hctx hlock hin =>
    rw [hin, List.nil_append] at hin'
    have hfl := flags_of_update hctx
    have hbu := busy_of_update hctx
    rw [hpc] at hcons
    obtain ⟨b', l', hclear', hex⟩ := hb.exclusive.leave hcons
    cases hclear'.symm.trans hclear
    refine ⟨?_, fun d hd => ?_⟩
    · simp only [hin', hfl, hbu, hlock]
      exact hex
    · have hd' : (s.mgr.ctx d).flags.concurrent = true := (congrFun hfl d) ▸ hd
      refine (congrFun hbu d).trans ?_
      rw [Function.update_apply]
      split_ifs with hdc
      · subst hdc
        simp only [teeTaClearBusy, hd', if_true, Section.done.injEq, Prod.mk.injEq] at hclear
        rw [← hclear.1, hb.quiet d hd']
      · exact hb.quiet d hd'

theorem Busy.push {req : Request} (h : Busy s) (hreq : s.request t req = some pc) :
    Busy { s with threads := Function.update s.threads t (pc :: s.threads t) } := by
  have hin : State.inside { s with threads := Function.update s.threads t (pc :: s.threads t) }
      = s.inside := filterMap_push Pc.inside (request_shape hreq).2.2
  exact ⟨hin ▸ h.exclusive, h.quiet⟩

/-! ## Refused calls -/

/-- `tee_ta_set_busy` is not called for a context that the thread is inside. -/
def SetsOutside (s : State n) (e : Fin n × Input) : Prop :=
  ∀ pc ∈ s.top e, ∀ c ∈ pc.sets, c ∈ s.inside e.1 → (s.mgr.ctx c).flags.concurrent = true

instance (s : State n) (e : Fin n × Input) : Decidable (SetsOutside s e) :=
  inferInstanceAs (Decidable (∀ pc ∈ s.top e, ∀ c ∈ pc.sets, _ → _ = _))

theorem Busy.refused_inside {x : Bool} {l : SingleInstance n} (hb : Busy s) (h : Inv φ s)
    (ht : s.threads t = pc :: fs) (hsets : pc.sets = some c)
    (htry : teeTaTrySetBusy (s.mgr.ctx c).flags (s.mgr.ctx c).busy s.mgr.lock t
      = .done (false, x, l)) :
    c ∈ s.inside t ∧ (s.mgr.ctx c).flags.concurrent = false := by
  obtain ⟨-, -, hconc, hbusy, -⟩ := hb.exclusive.refused htry
  refine ⟨?_, hconc⟩
  rcases hs : (s.mgr.ctx c).flags.singleInstance with - | -
  · obtain ⟨u, hu⟩ := hb.exclusive.exists_mem hconc hbusy
    have hone := (h.ctxs.ok c (h.inside_lt hu)).multi hs
    have hk := h.frames t pc (ht ▸ List.mem_cons_self)
    cases pc <;> simp only [Pc.sets, reduceCtorEq, Option.some.injEq] at hsets
    case invokeBusy a d =>
      subst hsets
      exact (h.inside_same ht rfl (hk a _ rfl).1 rfl hone hu).2 rfl ▸ hu
    case closeBusy a d =>
      subst hsets
      exact (h.inside_same ht rfl (hk a _ rfl).1 rfl hone hu).2 rfl ▸ hu
  · exact (hb.exclusive.refused_owner htry).2 hs

theorem Busy.open_refused {x : OpenArgs} (hb : Busy s) (h : Inv φ s)
    (ht : s.threads t = .openTry x a c :: fs) (hi : ∀ req, i ≠ .call req) (hin : c ∈ s.inside t)
    (hc : (s.mgr.ctx c).flags.concurrent = false) :
    ∃ m', s.step sdp (t, i)
      = .ok ⟨m', Function.update s.threads t (.openPut a (.error .busy) :: fs)⟩ := by
  have hsingle : (s.mgr.ctx c).flags.singleInstance = true := by
    by_contra hs
    have hone := (h.ctxs.ok c (h.inside_lt hin)).multi (by simpa using hs)
    have hk := h.frames t _ (ht ▸ List.mem_cons_self) a _ rfl
    exact (h.inside_same ht rfl hk rfl hone hin).1 rfl
  have hbusy : (s.mgr.ctx c).busy = true := hb.exclusive.busy_of_mem hc hin
  have howner : s.mgr.lock.thread = some t := hb.exclusive.owner_of_mem hc hsingle hin
  obtain hw | ⟨hc', -⟩ | ⟨-, hb', -⟩ | ⟨-, -, he, -⟩ :=
    trySetBusy_cases (s.mgr.ctx c).flags (s.mgr.ctx c).busy t hb.exclusive.ok
  · exact absurd hw (trySetBusy_ne_wait howner)
  · rw [hc] at hc'
    cases hc'
  · rw [hbusy] at hb'
    cases hb'
  · cases i with
    | call req => exact absurd rfl (hi req)
    | _ => exact ⟨_, by simp [State.step, ht, Pc.step, trySetBusy, he, Bind.bind, Except.bind]; rfl⟩

theorem Busy.run (sdp : Bool) {es : List (Fin n × Input)}
    (hg : Guarded (fun s e => FindsOpen s e ∧ SetsOutside s e) (State.step sdp) State.empty es) :
    EndsIn (fun s => Inv False s ∧ Busy s) (· ≠ .panic) (exec (State.step sdp) State.empty es) := by
  refine exec_endsIn (fun s e ⟨h, hb⟩ hg => ?_) ⟨Inv.empty, Busy.empty⟩ hg
  obtain ⟨t, i⟩ := e
  obtain he | ⟨req, pc, hreq, he⟩ | ⟨pc, fs, ht, htop, he⟩ := step_cases sdp s t i
  · rw [he]
    exact ⟨h, hb⟩
  · rw [he]
    exact ⟨h.push hreq, hb.push hreq⟩
  · have hgood := h.good_step sdp i ht (hg.1 pc htop) False.elim
    rw [he]
    cases hr : pc.step sdp s.mgr t i with
    | error f =>
      rw [hr] at hgood
      rintro rfl
      obtain ⟨c, x, l, hsets, htry⟩ := hgood
      obtain ⟨hin, hconc⟩ := hb.refused_inside h ht hsets htry
      exact absurd (hg.2 pc htop c hsets hin) (by simp [hconc])
    | ok r =>
      rw [hr] at hgood
      exact ⟨h.pop ht hgood, hgood.2.2.1.busy h hb ht⟩

/-- In every run in which `tee_ta_set_busy` is not called for a context that the thread is inside,
it does not panic, and an open of a TA that the thread is inside is refused. -/
theorem cycles_refused (sdp : Bool) (es : List (Fin n × Input))
    (hg : Guarded (fun s e => FindsOpen s e ∧ SetsOutside s e) (State.step sdp) State.empty es) :
    exec (State.step sdp) State.empty es ≠ .error .panic
      ∧ ∀ s, exec (State.step sdp) State.empty es = .ok s → ∀ t i x a c fs,
        s.threads t = .openTry x a c :: fs → (∀ req, i ≠ .call req) → c ∈ s.inside t →
        (s.mgr.ctx c).flags.concurrent = false → ∃ m', s.step sdp (t, i)
          = .ok ⟨m', Function.update s.threads t (.openPut a (.error .busy) :: fs)⟩ := by
  have hrun := Busy.run sdp hg
  refine ⟨fun he => ?_, fun s he t i x a c fs ht hi hin hc => ?_⟩
  · rw [he] at hrun
    exact hrun rfl
  · rw [he] at hrun
    exact hrun.2.open_refused hrun.1 ht hi hin hc

/-- A thread opens a session of a TA, up to where the TA runs. -/
def openUser (t : Fin n) : List (Fin n × Input) :=
  (t, .call (.open (ByteVec.zero 16) ⟨.loginPublic, ByteVec.zero 16⟩ []))
    :: [.go, .load .user, .loaded ⟨true, true, false, false, false⟩, .go, .go, .go].map (t, ·)

/-- The TA opens a session of another one, gives it a command and closes the session. -/
def useOther (t : Fin n) : List (Fin n × Input) :=
  (t, .call (.open (List.Vector.replicate 16 1) ⟨.loginPublic, ByteVec.zero 16⟩ []))
    :: [.go, .load .user, .loaded ⟨false, false, false, false, false⟩, .go, .go, .go,
      .ret (.ok ()) false, .go, .go, .go, .go, .call (.invoke 1 []), .go, .go, .go, .go,
      .ret (.ok ()) false, .go, .go, .go, .call (.close 1), .go, .go, .go, .go, .go, .go,
      .ret (.ok ()) false, .go, .go, .go, .go, .go].map (t, ·)

/-- The TA uses another one, and asks for a session of itself. -/
def useOtherAndSelf : List (Fin 1 × Input) :=
  openUser 0 ++ useOther 0 ++ (0,
    .call (.open (ByteVec.zero 16) ⟨.loginPublic, ByteVec.zero 16⟩ []))
    :: [.go, .go].map (0, ·)

/-- The session and the context of an open that is about to set the context busy. -/
def triesOpen : List Pc → Option (ℕ × ℕ)
  | .openTry _ a c :: _ => some (a, c)
  | _ => none

theorem eq_of_triesOpen (h : triesOpen fs = some (a, c)) : ∃ x fs', fs = .openTry x a c :: fs' := by
  unfold triesOpen at h
  split at h
  · cases h
    exact ⟨_, _, rfl⟩
  · cases h

theorem cycles_refused_other :
    Guarded (fun s e => FindsOpen s e ∧ SetsOutside s e)
      (State.step false) State.empty useOtherAndSelf
      ∧ ∃ s, exec (State.step false) State.empty useOtherAndSelf = .ok s
        ∧ s.mgr.returns = [⟨0, .close, .ok ()⟩, ⟨0, .invoke, .ok ()⟩, ⟨0, .open, .ok ()⟩]
        ∧ ∃ m' fs, s.step false (0, .go)
          = .ok ⟨m', Function.update s.threads 0 (.openPut 2 (.error .busy) :: fs)⟩ := by
  have hg : Guarded (fun s e => FindsOpen s e ∧ SetsOutside s e) (State.step false) State.empty
      useOtherAndSelf := by decide +kernel
  obtain ⟨s, hs, hr, hin, hc, ht⟩ := exists_ok_of_decide
    (r := exec (State.step false) State.empty useOtherAndSelf)
    (P := fun s => s.mgr.returns = [⟨0, .close, .ok ()⟩, ⟨0, .invoke, .ok ()⟩, ⟨0, .open, .ok ()⟩]
      ∧ 0 ∈ s.inside 0 ∧ (s.mgr.ctx 0).flags.concurrent = false
      ∧ triesOpen (s.threads 0) = some (2, 0)) (by decide +kernel)
  obtain ⟨x, fs, hthread⟩ := eq_of_triesOpen ht
  obtain ⟨m', hstep⟩ := (cycles_refused false _ hg).2 s hs 0 .go x 2 0 fs hthread nofun hin hc
  exact ⟨hg, s, hs, hr, m', fs, hstep⟩

/-- The TA opens a session of itself. The open is refused, and closing the session asks for the
context once more. -/
theorem refused_open_panics : exec (State.step false) (State.empty : State 1)
      (openUser 0 ++ (0, .call (.open (ByteVec.zero 16) ⟨.loginPublic, ByteVec.zero 16⟩ []))
        :: [.go, .go, .go, .go, .go, .go, .go, .go].map (0, ·)) = .error .panic :=
  eq_error_of_decide (by decide +kernel)

end Optee.TaManager
