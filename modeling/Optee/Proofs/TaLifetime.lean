import Optee.Proofs.TaRun

/-!
# Lifetimes of sessions and contexts

The main results about runs: what holds of sessions (`sessions_live`) and of contexts
(`contexts_live`), and what TAs are called for (`delivered_opened`).
-/

namespace Optee.TaManager

variable {n : ℕ} {s s' : State n} {m m' : Manager n} {t : Fin n} {a c : ℕ} {pc : Pc}
  {fs fs' : List Pc}

theorem Inv.of_findsOpen (sdp : Bool) {es : List (Fin n × Input)}
    (hg : Guarded FindsOpen (State.step sdp) State.empty es) :
    EndsIn (Inv False) Fault.mild (exec (State.step sdp) State.empty es) :=
  Inv.run sdp (hg.imp fun _ _ h => ⟨h, False.elim⟩)

/-! ## Sessions -/

/-- The ids on a list are valid and distinct, one thread at a time has the lock of a session, and no
frame has to do with a session that was freed, in every run in which sessions are found open and
closed by one frame at a time. -/
theorem sessions_live (sdp : Bool) (es : List (Fin n × Input))
    (hg : Guarded FindsOpen (State.step sdp) State.empty es) :
    exec (State.step sdp) State.empty es ≠ .error .useAfterFree
      ∧ ∀ s, exec (State.step sdp) State.empty es = .ok s →
        (∀ o, (∀ a ∈ s.mgr.lists o, (s.mgr.sess a).id ≠ 0)
          ∧ ((s.mgr.lists o).map fun a => (s.mgr.sess a).id).Nodup)
        ∧ (∀ t t' a r r', (a, r) ∈ s.roles t → (a, r') ∈ s.roles t' → r.locks = 1 → r'.locks = 1 →
          t = t' ∧ (s.mgr.sess a).lockThread = some t)
        ∧ ∀ t a r, (a, r) ∈ s.roles t → (s.mgr.sess a).freed = false := by
  have hrun := Inv.of_findsOpen sdp hg
  refine ⟨fun he => ?_, fun s he => ?_⟩
  · rw [he] at hrun
    rcases hrun with hf | hf <;> cases hf
  · rw [he] at hrun
    have hreg := hrun.reg
    refine ⟨fun o => ⟨fun a ha => (hreg.mem o a ha).2.2, ?_⟩, ?_, fun t a r hr => hreg.not_freed hr⟩
    · exact (hreg.nodup o).map_on fun a ha b hb hab => hreg.ids o a ha b hb hab
    · intro t t' a r r' hr hr' hl hl'
      have ht := hreg.lock_eq hr hl
      exact ⟨Option.some.inj (ht.symm.trans (hreg.lock_eq hr' hl')), ht⟩

/-- A thread opens a session of a pseudo TA. -/
def openPseudo (t : Fin n) : List (Fin n × Input) :=
  (t, .call (.open (ByteVec.zero 16) ⟨.loginPublic, ByteVec.zero 16⟩ []))
    :: [.go, .load (.pseudo ⟨false, false, false, false, false⟩), .go, .go, .go,
      .ret (.ok ()) false, .go, .go, .go, .go].map (t, ·)

def closeFirst (t : Fin n) : List (Fin n × Input) :=
  (t, .call (.close 1)) :: [.go, .go, .go, .go, .go, .go, .ret (.ok ()) false, .go, .go, .go,
    .go].map (t, ·)

/-- The thread `u` waits to close a session, which it used before, while `t` uses it. -/
def useAndClose (t u : Fin n) : List (Fin n × Input) :=
  (openPseudo t).append [(u, .call (.invoke 1 [])), (u, .go), (t, .call (.invoke 1 [])), (t, .go),
    (u, .go), (t, .go), (u, .go), (u, .go), (u, .ret (.ok ()) false), (u, .go), (u, .go), (u, .go),
    (t, .go), (u, .call (.close 1)), (u, .go), (u, .go), (u, .go)]

theorem sessions_live_waiting :
    Guarded FindsOpen (State.step false) (State.empty : State 2) (useAndClose 0 1)
    ∧ ∃ s, exec (State.step false) (State.empty : State 2) (useAndClose 0 1) = .ok s
      ∧ s.roles 0 = [(0, .user)] ∧ s.roles 1 = [(0, .closerWait)]
      ∧ (s.mgr.sess 0).freed = false := by
  have hg : Guarded FindsOpen (State.step false) (State.empty : State 2) (useAndClose 0 1) := by
    decide +kernel
  obtain ⟨s, hs, hr, hr'⟩ := exists_ok_of_decide
    (r := exec (State.step false) (State.empty : State 2) (useAndClose 0 1))
    (P := fun s => s.roles 0 = [(0, .user)] ∧ s.roles 1 = [(0, .closerWait)]) (by decide +kernel)
  have hlive := ((sessions_live false _ hg).2 s hs).2.2
  exact ⟨hg, s, hs, hr, hr', hlive 1 0 .closerWait (hr' ▸ List.mem_cons_self)⟩

/-- Two threads close one session: the first finds it, the second frees it, and the first reads its
id. -/
theorem close_twice_uses_freed : exec (State.step false) (State.empty : State 2)
      (openPseudo 0 ++ [(0, .call (.close 1)), (0, .go)] ++ closeFirst 1 ++ [(0, .go)])
      = .error .useAfterFree :=
  eq_error_of_decide (by decide +kernel)

/-! ## Calls of TAs -/

/-- A request that names a session by its id. -/
def Pc.names : Pc → Bool
  | .invoke _ _ _ _ | .close _ _ _ | .cancel _ => true
  | _ => false

theorem unknown_refused (sdp : Bool) {i : Input} (ht : s.threads t = pc :: fs)
    (hi : ∀ req, i ≠ .call req) (hn : pc.names = true) (hf : pc.finds s.mgr = none) :
    ∃ call e, s.step sdp (t, i)
      = .ok ⟨s.mgr.log t call (.error e), Function.update s.threads t fs⟩ := by
  have hstep : ∀ m', pc.step sdp s.mgr t i = .ok (m', []) →
      s.step sdp (t, i) = .ok ⟨m', Function.update s.threads t fs⟩ := by
    intro m' hm
    cases i with
    | call req => exact absurd rfl (hi req)
    | _ => simp [State.step, ht, hm, Bind.bind, Except.bind]
  cases pc with
  | invoke o id clnt params =>
    simp only [Pc.finds, Option.map_eq_none_iff] at hf
    refine ⟨.invoke, .badParameters, hstep _ ?_⟩
    simp [Pc.step, teeTaGetSession, hf, Bind.bind, Except.bind]
  | close o id clnt =>
    simp only [Pc.finds, Option.map_eq_none_iff] at hf
    refine ⟨.close, .itemNotFound, hstep _ ?_⟩
    simp [Pc.step, hf]
  | cancel id =>
    simp only [Pc.finds, Option.map_eq_none_iff] at hf
    refine ⟨.cancel, .badParameters, hstep _ ?_⟩
    simp [Pc.step, teeTaGetSession, hf, Bind.bind, Except.bind]
  | _ => simp [Pc.names] at hn

/-- In every run in which what is found was opened, and no TA refuses to open a session other than
by panicking, a TA is only called for sessions that it opened. -/
theorem delivered_opened (sdp : Bool) (es : List (Fin n × Input))
    (hg : Guarded (fun s e => FindsOpen s e ∧ FindsReady s e) (State.step sdp) State.empty es) :
    exec (State.step sdp) State.empty es ≠ .error .useAfterFree
      ∧ exec (State.step sdp) State.empty es ≠ .error .badContext
      ∧ ∀ s, exec (State.step sdp) State.empty es = .ok s →
        (∀ d ∈ s.mgr.deliveries, d.opened = true)
        ∧ ∀ t i pc fs, s.threads t = pc :: fs → (∀ req, i ≠ .call req) → pc.names = true →
          pc.finds s.mgr = none → ∃ call e, s.step sdp (t, i)
            = .ok ⟨s.mgr.log t call (.error e), Function.update s.threads t fs⟩ := by
  have hrun : EndsIn (Inv True) Fault.mild (exec (State.step sdp) State.empty es) :=
    Inv.run sdp (hg.imp fun _ _ h => ⟨h.1, fun _ => h.2⟩)
  refine ⟨fun he => ?_, fun he => ?_, fun s he => ⟨?_, ?_⟩⟩
  · rw [he] at hrun
    rcases hrun with hf | hf <;> cases hf
  · rw [he] at hrun
    rcases hrun with hf | hf <;> cases hf
  · rw [he] at hrun
    exact hrun.delivered trivial
  · exact fun t i pc fs ht hi hn hf => unknown_refused sdp ht hi hn hf

/-- A session is opened and closed: the one call but for the opening is for it. -/
theorem delivered_opened_close :
    ∃ s, exec (State.step false) (State.empty : State 1) (openPseudo 0 ++ closeFirst 0) = .ok s
      ∧ (s.mgr.deliveries.map Delivery.session = [0])
      ∧ ∀ d ∈ s.mgr.deliveries, d.opened = true := by
  have hg : Guarded (fun s e => FindsOpen s e ∧ FindsReady s e) (State.step false)
      (State.empty : State 1) (openPseudo 0 ++ closeFirst 0) := by decide +kernel
  obtain ⟨s, hs, hd⟩ := exists_ok_of_decide
    (r := exec (State.step false) (State.empty : State 1) (openPseudo 0 ++ closeFirst 0))
    (P := fun s => s.mgr.deliveries.map Delivery.session = [0]) (by decide +kernel)
  exact ⟨s, hs, hd, ((delivered_opened false _ hg).2.2 s hs).1⟩

/-- A command for a session whose TA is still being loaded: its context is used, and there is
none. -/
theorem invoke_before_open_faults : exec (State.step false) (State.empty : State 2)
      [(0, .call (.open (ByteVec.zero 16) ⟨.loginPublic, ByteVec.zero 16⟩ [])), (0, .go),
        (1, .call (.invoke 1 [])), (1, .go), (1, .go)] = .error .badContext :=
  eq_error_of_decide (by decide +kernel)

/-! ## Contexts -/

theorem CtxStep.linked_of_att {Q : Fin n → List (ℕ × CtxRole)} (hs : CtxStep m Q pc m' fs')
    (hc : c < m.nextCtx) (hatt : att m' c = att m c + 1) : c ∈ m.teeCtxes := by
  cases hs with
  | same _ _ _ _ hsame =>
    have := hsame c
    omega
  | change d α κ x' linked' α' κ' hd hκ hm hctx hnext hlink hnodup hchange =>
    have hα := hchange c
    rcases eq_or_ne c d with rfl | hne
    · simp only [if_true] at hα
      refine hm.linked_of_att ?_
      rw [CtxRole.att_has, CtxRole.att_has]
      omega
    · simp only [hne, if_false] at hα
      omega
  | new x' linked' κ' hκ hok hctx hnext hlink hnodup hnew =>
    have := hnew c
    rw [if_neg hc.ne] at this
    omega

theorem SessStep.att_of_attach {R : Fin n → List (ℕ × Role)} (hs : SessStep m R t pc m' fs')
    (hc : (m'.sess a).ctx = some c) (hnc : (m.sess a).ctx ≠ some c) : att m' c = att m c + 1 := by
  cases hs with
  | same hsess => exact absurd (hsess ▸ hc) hnc
  | change b ρ σ' ρ' hb hf hρ hm hset hsess hnext =>
    have hab : a = b := by
      by_contra hne
      rw [hsess, Function.update_of_ne hne] at hc
      exact hnc hc
    subst hab
    rw [hsess, Function.update_self] at hc
    have hf' : σ'.freed = false := by
      cases hm <;> first
        | exact hf
        | exact absurd hc hnc
    have hup := att_update (c := c) hb hsess hnext
    rw [attached_of_live hf, if_neg hnc, attached_eq_one hf' hc] at hup
    exact hup
  | alloc o id ctx hid hnew hρ hsess hnext =>
    have hab : a = m.nextSess := by
      by_contra hne
      rw [hsess, Function.update_of_ne hne] at hc
      exact hnc hc
    subst hab
    rw [hsess, Function.update_self] at hc
    rw [att_alloc hsess hnext, attached_eq_one rfl hc]

/-- A context that is not destroyed counts its sessions and the references still to be given back.
It is taken off `tee_ctxes`, released and destroyed at most once, destroyed only without a session,
and sessions are only attached before it is taken off. -/
theorem contexts_live (sdp : Bool) (es : List (Fin n × Input))
    (hg : Guarded FindsOpen (State.step sdp) State.empty es) :
    exec (State.step sdp) State.empty es ≠ .error .refCount
      ∧ ∀ s, exec (State.step sdp) State.empty es = .ok s →
        (∀ c < s.mgr.nextCtx,
          ((s.mgr.ctx c).destroys = 0 → (s.mgr.ctx c).refCount
            = att s.mgr c + total (fun p => if p = (c, CtxRole.owes) then 1 else 0) s.ctxRoles)
          ∧ (s.mgr.ctx c).unlinks ≤ 1 ∧ (s.mgr.ctx c).releases ≤ 1 ∧ (s.mgr.ctx c).destroys ≤ 1
          ∧ (0 < (s.mgr.ctx c).destroys → att s.mgr c = 0))
        ∧ ∀ e s', FindsOpen s e → s.step sdp e = .ok s' → ∀ a, ∀ c < s.mgr.nextCtx,
          (s'.mgr.sess a).ctx = some c → (s.mgr.sess a).ctx ≠ some c →
            (s.mgr.ctx c).unlinks = 0 := by
  have hrun := Inv.of_findsOpen sdp hg
  refine ⟨fun he => ?_, fun s he => ?_⟩
  · rw [he] at hrun
    rcases hrun with hf | hf <;> cases hf
  rw [he] at hrun
  refine ⟨fun c hc => ?_, ?_⟩
  · have hok := hrun.ctxs.ok c hc
    have howes : (ctxHasOf s.mgr s.ctxRoles c).owes
        = total (fun p => if p = (c, CtxRole.owes) then 1 else 0) s.ctxRoles := by
      refine congrArg (total · s.ctxRoles) ?_
      funext ⟨d, r⟩
      simp only [held, Prod.mk.injEq]
      split_ifs <;> simp_all
    refine ⟨fun hd => howes ▸ hok.refs hd, hok.unlinks, ?_, ?_, fun hd => (hok.gone (by omega)).1⟩
    · exact (Nat.le_add_right _ _).trans (hok.releases.trans (Bool.toNat_le _))
    · exact (Nat.le_add_right _ _).trans hok.once
  · rintro ⟨t, i⟩ s' hfo hs' a c hc hac hnc
    have hlinked : c ∈ s.mgr.teeCtxes := by
      obtain he' | ⟨req, pc, hreq, he'⟩ | ⟨pc, fs, ht, htop, he'⟩ := step_cases sdp s t i
      · cases he'.symm.trans hs'
        exact absurd hac hnc
      · cases he'.symm.trans hs'
        exact absurd hac hnc
      · have hgood := hrun.good_step sdp i ht (hfo pc htop) False.elim
        rw [he'] at hs'
        cases hr : pc.step sdp s.mgr t i with
        | error f =>
          rw [hr] at hs'
          cases hs'
        | ok r =>
          rw [hr] at hs' hgood
          cases hs'
          exact hgood.2.1.linked_of_att hc (hgood.1.att_of_attach hac hnc)
    have hun := (hrun.ctxs.ok c hc).unlinked
    by_contra hne
    exact (hun (Nat.pos_of_ne_zero hne)).1 hlinked

/-- Both threads go on to the end. -/
def endUseAndClose (t u : Fin n) : List (Fin n × Input) :=
  [(t, .go), (t, .go), (t, .go), (t, .ret (.ok ()) false), (t, .go), (t, .go), (t, .go),
    (u, .go), (u, .go), (u, .go), (u, .go), (u, .ret (.ok ()) false), (u, .go), (u, .go), (u, .go),
    (u, .go), (u, .go)]

theorem contexts_live_waiting :
    ∃ s, exec (State.step false) (State.empty : State 2) (useAndClose 0 1 ++ endUseAndClose 0 1)
        = .ok s
      ∧ (s.mgr.ctx 0).destroys = 1 ∧ (s.mgr.ctx 0).unlinks ≤ 1 ∧ att s.mgr 0 = 0 := by
  have hg : Guarded FindsOpen (State.step false) (State.empty : State 2)
      (useAndClose 0 1 ++ endUseAndClose 0 1) := by decide +kernel
  obtain ⟨s, hs, hc, hd⟩ := exists_ok_of_decide
    (r := exec (State.step false) (State.empty : State 2) (useAndClose 0 1 ++ endUseAndClose 0 1))
    (P := fun s => 0 < s.mgr.nextCtx ∧ (s.mgr.ctx 0).destroys = 1) (by decide +kernel)
  have hlive := ((contexts_live false _ hg).2 s hs).1 0 hc
  exact ⟨s, hs, hd, hlive.2.1, hlive.2.2.2.2 (by omega)⟩

/-- A session is closed while its TA is being loaded, without giving back the reference to the
context that it has by then. -/
theorem close_before_open_leaks :
    ∃ s, exec (State.step false) (State.empty : State 2)
        ([(0, .call (.open (ByteVec.zero 16) ⟨.loginPublic, ByteVec.zero 16⟩ [])), (0, .go),
          (1, .call (.close 1)), (1, .go), (1, .go), (1, .go), (1, .go), (1, .go),
          (0, .load (.pseudo ⟨false, false, false, false, false⟩)), (0, .go), (0, .go), (0, .go),
          (0, .ret (.ok ()) false), (0, .go), (0, .go), (0, .go), (1, .go), (1, .go)]) = .ok s
      ∧ (s.mgr.ctx 0).destroys = 0 ∧ (s.mgr.ctx 0).refCount = 1 ∧ att s.mgr 0 = 0
      ∧ total (fun p => if p = (0, CtxRole.owes) then 1 else 0) s.ctxRoles = 0 :=
  exists_ok_of_decide (by decide +kernel)

end Optee.TaManager
