import Optee.Proofs.TaFrames

/-!
# Runs of the manager

What every guarded step keeps holds in every guarded run (`Inv.step`).
-/

namespace Optee.TaManager

variable {n : ℕ} {φ : Prop} {s s' : State n} {m m' : Manager n} {t u : Fin n} {a b c : ℕ}
  {pc pc' : Pc} {fs fs' : List Pc} {sdp : Bool} {i : Input}

section

variable {R : Fin n → List (ℕ × Role)} {l : List (ℕ × Role)}

theorem SessStep.registered (hs : SessStep m R t pc m' fs') (h : Registered m R)
    (hR : R t = pc.role.toList ++ l) :
    Registered m' (Function.update R t (fs'.filterMap Pc.role ++ l)) := by
  cases hs with
  | same hsess hnext hlists hroles =>
    rw [hroles, ← hR, Function.update_eq_self]
    exact h.congr hsess hnext hlists
  | change a ρ σ' ρ' ha hf hρ hm hset hsess hnext hlists hρ' =>
    exact h.change (hR.trans (by rw [hρ])) (by rw [hρ']) ha hf hm hsess hnext hlists
  | alloc o id ctx hid hnew hρ hsess hnext hlists hρ' =>
    have hl : R t = l := by rw [hR, hρ]; rfl
    exact h.alloc (by rw [hρ', hl]; rfl) hid hnew hsess hnext hlists

theorem SessStep.later {r : Role} (hs : SessStep m R t pc m' fs') (h : Registered m R)
    (hR : R t = pc.role.toList ++ l)
    (hmem : (b, r) ∈ Function.update R t l u) : (m.sess b).Later (m'.sess b) := by
  cases hs with
  | same hsess =>
    rw [hsess]
    exact .refl
  | change a ρ σ' ρ' ha hf hρ hm hset hsess hnext hlists hρ' =>
    rw [hsess]
    rcases eq_or_ne b a with rfl | hne
    · rw [Function.update_self]
      refine hm.later ?_
      rintro rfl
      rw [hρ] at hR
      exact h.opener_alone hR hmem (.inl rfl)
    · rw [Function.update_of_ne hne]
      exact .refl
  | alloc o id ctx hid hnew hρ hsess hnext hlists hρ' =>
    have hl : R t = l := by rw [hR, hρ]; rfl
    rw [← hl, Function.update_eq_self] at hmem
    rw [hsess, Function.update_of_ne (h.fresh u _ hmem).ne]
    exact .refl

theorem SessStep.settles (hs : SessStep m R t pc m' fs') (h : ∀ a < m.nextSess, (m.sess a).Settles)
    : ∀ a < m'.nextSess, (m'.sess a).Settles := by
  intro b hb
  cases hs with
  | same hsess hnext =>
    rw [hsess]
    exact h b (hnext ▸ hb)
  | change a ρ σ' ρ' ha hf hρ hm hset hsess hnext hlists hρ' =>
    rw [hsess]
    rcases eq_or_ne b a with rfl | hne
    · rwa [Function.update_self]
    · rw [Function.update_of_ne hne]
      exact h b (hnext ▸ hb)
  | alloc o id ctx hid hnew hρ hsess hnext hlists hρ' =>
    rw [hsess]
    rcases eq_or_ne b m.nextSess with rfl | hne
    · rw [Function.update_self]
      exact ⟨nofun, nofun⟩
    · rw [Function.update_of_ne hne]
      exact h b (by omega)

end

section

variable {Q : Fin n → List (ℕ × CtxRole)} {l : List (ℕ × CtxRole)}

theorem CtxStep.registered (hs : CtxStep m Q pc m' fs') (h : CtxRegistered m Q)
    (hQ : Q t = pc.ctxRole.toList ++ l) :
    CtxRegistered m' (Function.update Q t (fs'.filterMap Pc.ctxRole ++ l)) := by
  cases hs with
  | same hctx hunused hnext hlink hatt hsess hroles =>
    rw [hroles, ← hQ, Function.update_eq_self]
    exact h.same hctx hunused hnext hlink hatt hsess
  | change c α κ x' linked' α' κ' hc hκ hm hctx hnext hlink hnodup hatt hα hsess hκ' =>
    exact h.change (hQ.trans (by rw [hκ])) (by rw [hκ']) hc hm hctx hnext hlink hnodup hatt hα hsess
  | new x' linked' κ' hκ hok hctx hnext hlink hnodup hatt hsess hκ' =>
    have hl : Q t = l := by rw [hQ, hκ]; rfl
    exact h.new (by rw [hκ', hl]) hok hctx hnext hlink hnodup hatt hsess

theorem CtxStep.later (hs : CtxStep m Q pc m' fs')
    (hc : c < m.nextCtx) : (m.ctx c).Later (m'.ctx c) := by
  cases hs with
  | same hctx => exact (hctx c).later
  | change d α κ x' linked' α' κ' hd hκ hm hctx =>
    rw [hctx, Function.update_apply]
    split_ifs with hcd
    · rw [hcd]
      exact hm.later
    · exact .refl
  | new x' linked' κ' hκ hok hctx =>
    rw [hctx, Function.update_of_ne hc.ne]
    exact .refl

end

/-! ## Steps of the system -/

theorem Inv.empty : Inv φ (.empty : State n) where
  reg := Registered.empty
  ctxs := CtxRegistered.empty
  frames _ _ h := absurd h List.not_mem_nil
  settles _ h := absurd h (Nat.not_lt_zero _)
  alone _ _ h := absurd h List.not_mem_nil
  delivered _ _ h := absurd h List.not_mem_nil

theorem request_shape {req : Request} (h : s.request t req = some pc) :
    pc.role = none ∧ pc.ctxRole = none ∧ pc.inside = none := by
  unfold State.request at h
  split at h
  · cases req <;> simp only [Request.fromNormalWorld, Option.some.injEq] at h
    · split at h <;> cases h
      exact ⟨rfl, rfl, rfl⟩
    all_goals subst h; exact ⟨rfl, rfl, rfl⟩
  · simp only [Option.bind_eq_some_iff] at h
    obtain ⟨c, -, h⟩ := h
    split_ifs at h
    cases req <;> simp only [Request.fromTa, Option.some.injEq, reduceCtorEq] at h <;>
      subst h <;> exact ⟨rfl, rfl, rfl⟩

theorem request_alone {req : Request} (h : s.request t req = some pc) :
    s.threads t = [] ∨ pc.cancels = false
      ∧ ∃ pc' fs, s.threads t = pc' :: fs ∧ pc'.cancels = false := by
  unfold State.request at h
  split at h
  · exact .inl ‹_›
  · rename_i pc' fs ht
    simp only [Option.bind_eq_some_iff] at h
    obtain ⟨c, hrun, h⟩ := h
    split_ifs at h
    refine .inr ⟨?_, pc', fs, ht, ?_⟩
    · cases req <;> simp only [Request.fromTa, Option.some.injEq, reduceCtorEq] at h <;>
        subst h <;> rfl
    · cases pc' <;> simp [Pc.running] at hrun <;> rfl

theorem filterMap_push {β : Type} (f : Pc → Option β) (h : f pc = none) :
    (fun u => (Function.update s.threads t (pc :: s.threads t) u).filterMap f)
      = fun u => (s.threads u).filterMap f := by
  funext u
  rcases eq_or_ne u t with rfl | hne
  · simp [h]
  · simp [Function.update_of_ne hne]

theorem filterMap_pop {β : Type} (f : Pc → Option β) :
    (fun u => (Function.update s.threads t (fs' ++ fs) u).filterMap f)
      = Function.update (fun u => (s.threads u).filterMap f) t
        (fs'.filterMap f ++ fs.filterMap f) := by
  funext u
  rcases eq_or_ne u t with rfl | hne
  · simp
  · simp [Function.update_of_ne hne]

/-- A request that enters a function keeps the invariant. -/
theorem Inv.push {req : Request} (h : Inv φ s) (hreq : s.request t req = some pc) :
    Inv φ { s with threads := Function.update s.threads t (pc :: s.threads t) } := by
  obtain ⟨hrole, hcr, -⟩ := request_shape hreq
  refine ⟨?_, ?_, ?_, h.settles, ?_, h.delivered⟩
  · unfold State.roles
    rw [filterMap_push Pc.role hrole]
    exact h.reg
  · unfold State.ctxRoles
    rw [filterMap_push Pc.ctxRole hcr]
    exact h.ctxs
  · intro u pc' hmem
    rcases eq_or_ne u t with rfl | hne
    · simp only [Function.update_self] at hmem
      rcases List.mem_cons.1 hmem with rfl | hmem
      · intro a r hr
        rw [hrole] at hr
        cases hr
      · exact h.frames u pc' hmem
    · simp only [Function.update_of_ne hne] at hmem
      exact h.frames u pc' hmem
  · intro u pc' hmem hcanc
    rcases eq_or_ne u t with rfl | hne
    · simp only [Function.update_self] at hmem ⊢
      obtain hnil | ⟨hpc, top, fs, ht, htop⟩ := request_alone hreq
      · rw [hnil] at hmem ⊢
        rw [List.mem_singleton.1 hmem]
      · rcases List.mem_cons.1 hmem with rfl | hmem
        · rw [hpc] at hcanc
          cases hcanc
        · have hone := h.alone u pc' hmem hcanc
          rw [ht] at hone
          cases hone
          rw [htop] at hcanc
          cases hcanc
    · simp only [Function.update_of_ne hne] at hmem ⊢
      exact h.alone u pc' hmem hcanc

/-- A frame that takes a good step keeps the invariant of the other frames. -/
theorem Inv.pop (h : Inv φ s) (ht : s.threads t = pc :: fs)
    (hgood : Good φ s t pc (.ok (m', fs'))) :
    Inv φ ⟨m', Function.update s.threads t (fs' ++ fs)⟩ := by
  obtain ⟨hs, hc, -, hdel, hnew, hcanc⟩ := hgood
  have hR := roles_cons ht
  have hother : ∀ u pc', FrameOk φ s.mgr pc' →
      (∀ p, pc'.role = some p → p ∈ Function.update s.roles t (fs.filterMap Pc.role) u) →
      FrameOk φ m' pc' := by
    intro u pc' hok hin b r hr
    refine (hok b r hr).later (hs.later h.reg hR (hin _ hr)) fun c hbc => hc.later ?_
    have hmem := hin _ hr
    have hb : b < s.mgr.nextSess := by
      rcases eq_or_ne u t with rfl | hne
      · rw [Function.update_self] at hmem
        exact h.reg.fresh u _ (hR ▸ List.mem_append_right _ hmem)
      · rw [Function.update_of_ne hne] at hmem
        exact h.reg.fresh u _ hmem
    exact h.ctxs.sess b hb c hbc
  refine ⟨?_, ?_, ?_, hs.settles h.settles, ?_, ?_⟩
  · unfold State.roles
    rw [filterMap_pop]
    exact hs.registered h.reg hR
  · unfold State.ctxRoles
    rw [filterMap_pop]
    exact hc.registered h.ctxs (ctxRoles_cons ht)
  · intro u pc' hmem
    rcases eq_or_ne u t with rfl | hne
    · simp only [Function.update_self] at hmem
      rcases List.mem_append.1 hmem with hmem | hmem
      · exact hnew pc' hmem
      · refine hother u pc' (h.frames u pc' (ht ▸ List.mem_cons_of_mem _ hmem)) fun p hp => ?_
        rw [Function.update_self]
        exact List.mem_filterMap.2 ⟨pc', hmem, hp⟩
    · simp only [Function.update_of_ne hne] at hmem
      refine hother u pc' (h.frames u pc' hmem) fun p hp => ?_
      rw [Function.update_of_ne hne]
      exact List.mem_filterMap.2 ⟨pc', hmem, hp⟩
  · intro u pc' hmem hcn
    rcases eq_or_ne u t with rfl | hne
    · simp only [Function.update_self] at hmem ⊢
      rcases List.mem_append.1 hmem with hmem | hmem
      · obtain ⟨hpc, hone⟩ := hcanc pc' hmem hcn
        have htop := h.alone u pc (ht ▸ List.mem_cons_self) hpc
        rw [ht] at htop
        rw [hone, (List.cons.inj htop).2]
        rfl
      · have hone := h.alone u pc' (ht ▸ List.mem_cons_of_mem _ hmem) hcn
        rw [ht] at hone
        rw [(List.cons.inj hone).2] at hmem
        exact absurd hmem List.not_mem_nil
    · simp only [Function.update_of_ne hne] at hmem ⊢
      exact h.alone u pc' hmem hcn
  · intro hφ d hd
    obtain hsame | ⟨a, hadd, ho⟩ := hdel
    · exact h.delivered hφ d (hsame ▸ hd)
    · change d ∈ m'.deliveries at hd
      rw [hadd] at hd
      rcases List.mem_cons.1 hd with rfl | hd
      · exact ho hφ
      · exact h.delivered hφ d hd

theorem step_cases (sdp : Bool) (s : State n) (t : Fin n) (i : Input) : s.step sdp (t, i) = .ok s
      ∨ (∃ req pc, s.request t req = some pc ∧ s.step sdp (t, i)
          = .ok { s with threads := Function.update s.threads t (pc :: s.threads t) })
      ∨ ∃ pc fs, s.threads t = pc :: fs ∧ s.top (t, i) = some pc
        ∧ s.step sdp (t, i) = (pc.step sdp s.mgr t i).map fun r =>
          ⟨r.1, Function.update s.threads t (r.2 ++ fs)⟩ := by
  cases i with
  | call req =>
    cases hreq : s.request t req with
    | none => exact .inl (by simp [State.step, hreq])
    | some pc => exact .inr (.inl ⟨req, pc, hreq, by simp [State.step, hreq]⟩)
  | _ =>
    cases ht : s.threads t with
    | nil => exact .inl (by simp [State.step, ht])
    | cons pc fs =>
      refine .inr (.inr ⟨pc, fs, rfl, by simp [State.top, ht], ?_⟩)
      simp only [State.step, ht]
      cases pc.step sdp s.mgr t _ <;> rfl

/-- The fault is one that the frame may have. -/
def FaultOk (s : State n) (e : Fin n × Input) (f : Fault) : Prop :=
  ∃ pc, s.top e = some pc ∧ pc ∈ s.threads e.1 ∧ Allowed s.mgr e.1 pc f

theorem Inv.step (sdp : Bool) {e : Fin n × Input} (h : Inv φ s) (hg : FindsOpen s e)
    (hφ : φ → FindsReady s e) : EndsIn (Inv φ) (FaultOk s e) (s.step sdp e) := by
  obtain ⟨t, i⟩ := e
  obtain he | ⟨req, pc, hreq, he⟩ | ⟨pc, fs, ht, htop, he⟩ := step_cases sdp s t i
  · rw [he]
    exact h
  · rw [he]
    exact h.push hreq
  · have hgood := h.good_step sdp i ht (hg pc htop) fun hφ' => hφ hφ' pc htop
    rw [he]
    cases hr : pc.step sdp s.mgr t i with
    | error f =>
      rw [hr] at hgood
      exact ⟨pc, htop, by simp [ht], hgood⟩
    | ok r =>
      rw [hr] at hgood
      exact h.pop ht hgood

/-- A fault that has nothing to do with lifetimes. -/
def Fault.mild (f : Fault) : Prop := f = .assert ∨ f = .panic

theorem FaultOk.mild {e : Fin n × Input} {f : Fault} (h : FaultOk s e f) : f.mild := by
  obtain ⟨pc, -, -, hf⟩ := h
  cases f <;> first
    | exact absurd hf id
    | exact .inl rfl
    | exact .inr rfl

theorem Inv.run (sdp : Bool) {es : List (Fin n × Input)}
    (hg : Guarded (fun s e => FindsOpen s e ∧ (φ → FindsReady s e))
      (State.step sdp) State.empty es) :
    EndsIn (Inv φ) Fault.mild (exec (State.step sdp) State.empty es) := by
  refine exec_endsIn (fun s e h hg => ?_) Inv.empty hg
  have hstep := h.step sdp hg.1 hg.2
  cases hr : s.step sdp e with
  | ok s' =>
    rw [hr] at hstep
    exact hstep
  | error f =>
    rw [hr] at hstep
    exact FaultOk.mild hstep

end Optee.TaManager
