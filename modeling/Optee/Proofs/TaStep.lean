import Optee.Proofs.TaContext

/-!
# What a step of a frame does

Every step of a frame is a move of a session (`SessStep`), a move of a context (`CtxStep`) and may
enter or leave a context (`BusyStep`) (`Inv.good_step`).
-/

namespace Optee.TaManager

variable {n : ℕ} {φ : Prop} {s s' : State n} {m m' : Manager n} {t u : Fin n} {a b c : ℕ}
  {σ σ' : Session n} {pc pc' : Pc} {fs fs' : List Pc} {sdp : Bool} {i : Input} {p p' : ℕ → TaCtx}

/-! ## What frames know -/

def Dead (p : ℕ → TaCtx) (σ : Session n) : Prop := ∃ c, σ.ctx = some c ∧ (p c).panicked = true

/-- What a frame knows of its session. Where no TA refuses to open a session (`φ`), one that was not
opened is of a TA that panicked. -/
def Pc.Knows (φ : Prop) (p : ℕ → TaCtx) (σ : Session n) : Pc → Prop
  | .initWait _ _ | .initLoad _ _ | .initUndo _ _ | .initFree _ _ => σ.ctx = none
  | .initStmm _ _ c => σ.ctx = some c ∧ (p c).kind = .stmm
  | .initUser _ _ c => σ.ctx = some c ∧ (p c).kind = .user
  | .openTry _ _ c | .openEnter _ _ c | .openTa _ c
  | .invokeTa _ c | .invokeLeft _ c _ | .invokeRelease _ c | .invokeClear _ c _
  | .closeTa _ c => σ.ctx = some c
  | .openParams _ _ => σ.ctx.isSome
  | .openLeft _ c res => σ.ctx = some c
    ∧ if res.isOk then σ.opened = true ∨ (p c).panicked = true else φ → (p c).panicked = true
  | .openRelease _ c => σ.ctx = some c ∧ (p c).panicked = true
  | .openClear _ c res =>
    σ.ctx = some c ∧ if res.isOk then σ.opened = true else φ → (p c).panicked = true
  | .openPut _ res => σ.ctx.isSome ∧ if res.isOk then σ.opened = true else φ → Dead p σ
  | .openDone _ => σ.ctx.isSome ∧ σ.opened = true
  | .invokeWait _ _ _ | .invokeCheck _ _ _ => φ → σ.ready = true
  | .invokeBusy _ c | .invokeEnter _ c => σ.ctx = some c ∧ (φ → σ.ready = true)
  | .closeId _ o clnt => σ.ctx.isSome ∧ o = σ.owner ∧ (clnt = .kern ∨ σ.settled = true)
    ∧ (φ → σ.ready = true ∨ Dead p σ)
  | .closeGet _ o id clnt => σ.ctx.isSome ∧ o = σ.owner ∧ id = σ.id
    ∧ (clnt = .kern ∨ σ.settled = true) ∧ (φ → σ.ready = true ∨ Dead p σ)
  | .closeWait _ clnt | .closeCheck _ clnt => σ.ctx.isSome ∧ (clnt = .kern ∨ σ.settled = true)
    ∧ (φ → σ.ready = true ∨ Dead p σ)
  | .closeBusy _ c | .closeEnter _ c => σ.ctx = some c ∧ (φ → σ.opened = true)
  | .closeUnlink _ c | .closeUnlinkWait _ c | .closeFree _ c =>
    σ.ctx.isSome ∧ c.map Prod.fst = σ.ctx
  | _ => True

theorem Dead.later (h : Dead p σ) (hl : σ.Later σ')
    (hp : ∀ c, σ.ctx = some c → (p c).Later (p' c)) : Dead p' σ' := by
  obtain ⟨c, hc, hpc⟩ := h
  exact ⟨c, hl.ctx.trans hc, (hp c hc).panicked hpc⟩

theorem Pc.Knows.later (h : pc.Knows φ p σ) (hl : σ.Later σ')
    (hp : ∀ c, σ.ctx = some c → (p c).Later (p' c)) : pc.Knows φ p' σ' := by
  have hdead : Dead p σ → Dead p' σ' := fun h => h.later hl hp
  have hset := hl.settled
  have hkind : ∀ c, σ.ctx = some c → (p' c).kind = (p c).kind := fun c hc => (hp c hc).kind
  have hpan : ∀ c, σ.ctx = some c → (p c).panicked = true → (p' c).panicked = true :=
    fun c hc => (hp c hc).panicked
  obtain ⟨hid, howner, hctx, hopened, hready, -⟩ := hl
  cases pc <;> simp only [Pc.Knows, hctx, hid, howner, hopened] at h ⊢ <;> grind

/-- What a frame knows of its session. -/
def FrameOk (φ : Prop) (m : Manager n) (pc : Pc) : Prop :=
  ∀ a r, pc.role = some (a, r) → pc.Knows φ m.ctx (m.sess a)

/-- A frame of `entry_cancel`. -/
def Pc.cancels : Pc → Bool
  | .cancel _ | .cancelSet _ | .cancelPut _ _ => true
  | _ => false

/-- An open session has a context, and a session that was returned was opened. -/
def Session.Settles (σ : Session n) : Prop :=
  (σ.settled = true → σ.ctx.isSome) ∧ (σ.ready = true → σ.opened = true)

structure Inv (φ : Prop) (s : State n) : Prop where
  reg : Registered s.mgr s.roles
  ctxs : CtxRegistered s.mgr s.ctxRoles
  frames : ∀ t, ∀ pc ∈ s.threads t, FrameOk φ s.mgr pc
  settles : ∀ a < s.mgr.nextSess, (s.mgr.sess a).Settles
  alone : ∀ t, ∀ pc ∈ s.threads t, pc.cancels = true → s.threads t = [pc]
  delivered : φ → ∀ d ∈ s.mgr.deliveries, d.opened = true

/-! ## Steps -/

/-- What a step of a frame makes of the sessions. -/
inductive SessStep (m : Manager n) (R : Fin n → List (ℕ × Role)) (t : Fin n) (pc : Pc)
    (m' : Manager n) (fs' : List Pc) : Prop
  | same (hsess : m'.sess = m.sess) (hnext : m'.nextSess = m.nextSess) (hlists : m'.lists = m.lists)
    (hroles : fs'.filterMap Pc.role = pc.role.toList)
  | change (a : ℕ) (ρ : Option Role) (σ' : Session n) (ρ' : Option Role) (ha : a < m.nextSess)
    (hf : (m.sess a).freed = false) (hρ : pc.role.toList = roleAt a ρ)
    (hm : (m.sess a).Move t (hasOf R a) ρ σ' ρ') (hset : σ'.Settles)
    (hsess : m'.sess = Function.update m.sess a σ') (hnext : m'.nextSess = m.nextSess)
    (hlists : m'.lists = if Removes ρ ρ' then (m.unlist a).lists else m.lists)
    (hρ' : fs'.filterMap Pc.role = roleAt a ρ')
  | alloc (o : Option ℕ) (id : BitVec 32) (ctx : Option ℕ) (hid : id ≠ 0)
    (hnew : ∀ b ∈ m.lists o, (m.sess b).id ≠ id) (hρ : pc.role = none)
    (hsess : m'.sess = Function.update m.sess m.nextSess
      { Session.zero with id := id, owner := o, refCount := 1, ctx := ctx })
    (hnext : m'.nextSess = m.nextSess + 1)
    (hlists : m'.lists = Function.update m.lists o (m.lists o ++ [m.nextSess]))
    (hρ' : fs'.filterMap Pc.role = [(m.nextSess, .opener)])

/-- What a step of a frame makes of the contexts. -/
inductive CtxStep (m : Manager n) (Q : Fin n → List (ℕ × CtxRole)) (pc : Pc) (m' : Manager n)
    (fs' : List Pc) : Prop
  | same (hctx : ∀ d, (m.ctx d).Alike (m'.ctx d))
    (hunused : ∀ d, m.nextCtx ≤ d → m'.ctx d = m.ctx d) (hnext : m'.nextCtx = m.nextCtx)
    (hlink : m'.teeCtxes = m.teeCtxes) (hatt : ∀ d, att m' d = att m d)
    (hsess : ∀ a < m'.nextSess, ∀ c ∈ (m'.sess a).ctx, c < m.nextCtx)
    (hroles : fs'.filterMap Pc.ctxRole = pc.ctxRole.toList)
  | change (c α : ℕ) (κ : Option CtxRole) (x' : TaCtx) (linked' : Prop) (α' : ℕ)
    (κ' : Option CtxRole) (hc : c < m.nextCtx) (hκ : pc.ctxRole.toList = roleAt c κ)
    (hm : (m.ctx c).Move (c ∈ m.teeCtxes) (ctxHasOf m Q c) (CtxRole.has α κ) x' linked'
      (CtxRole.has α' κ'))
    (hctx : m'.ctx = Function.update m.ctx c x') (hnext : m'.nextCtx = m.nextCtx)
    (hlink : ∀ d, d ∈ m'.teeCtxes ↔ if d = c then linked' else d ∈ m.teeCtxes)
    (hnodup : m'.teeCtxes.Nodup)
    (hatt : ∀ d, att m' d + (if d = c then α else 0) = att m d + if d = c then α' else 0)
    (hα : α ≤ att m c) (hsess : ∀ a < m'.nextSess, ∀ c ∈ (m'.sess a).ctx, c < m.nextCtx)
    (hκ' : fs'.filterMap Pc.ctxRole = roleAt c κ')
  | new (x' : TaCtx) (linked' : Prop) (κ' : Option CtxRole) (hκ : pc.ctxRole = none)
    (hok : CtxOk x' linked' (CtxRole.has 1 κ'))
    (hctx : m'.ctx = Function.update m.ctx m.nextCtx x') (hnext : m'.nextCtx = m.nextCtx + 1)
    (hlink : ∀ d, d ∈ m'.teeCtxes ↔ if d = m.nextCtx then linked' else d ∈ m.teeCtxes)
    (hnodup : m'.teeCtxes.Nodup)
    (hatt : ∀ d, att m' d = att m d + if d = m.nextCtx then 1 else 0)
    (hsess : ∀ a < m'.nextSess, ∀ c ∈ (m'.sess a).ctx, c < m.nextCtx + 1)
    (hκ' : fs'.filterMap Pc.ctxRole = roleAt m.nextCtx κ')

/-- Whether a step of a frame enters or leaves a context. -/
inductive BusyStep (m : Manager n) (t : Fin n) (pc : Pc) (m' : Manager n) (fs' : List Pc) : Prop
  | same (hlock : m'.lock = m.lock) (hbusy : ∀ d, (m'.ctx d).busy = (m.ctx d).busy)
    (hflags : ∀ d, (m'.ctx d).flags = (m.ctx d).flags ∨ pc.ctxRole = some (d, .loads)
      ∨ d = m.nextCtx)
    (hin : fs'.filterMap Pc.inside = pc.inside.toList)
  | enter (c : ℕ) (rc busy : Bool) (l : SingleInstance n) (hpc : pc.inside = none)
    (htry : teeTaTrySetBusy (m.ctx c).flags (m.ctx c).busy m.lock t = .done (rc, busy, l))
    (hctx : m'.ctx = Function.update m.ctx c { m.ctx c with busy := busy }) (hlock : m'.lock = l)
    (hin : fs'.filterMap Pc.inside = if rc then [c] else [])
  | leave (c : ℕ) (busy : Bool) (l : SingleInstance n) (hpc : pc.inside = some c)
    (hclear : teeTaClearBusy (m.ctx c).flags (m.ctx c).busy m.lock t = .done (busy, l))
    (hctx : m'.ctx = Function.update m.ctx c { m.ctx c with busy := busy }) (hlock : m'.lock = l)
    (hin : fs'.filterMap Pc.inside = [])

/-- A step calls the TA at most once, for a session that was opened. -/
def Delivers (φ : Prop) (m m' : Manager n) : Prop :=
  m'.deliveries = m.deliveries
    ∨ ∃ a, m'.deliveries = ⟨a, (m.sess a).opened⟩ :: m.deliveries ∧ (φ → (m.sess a).opened = true)

/-- The context that `tee_ta_set_busy` is called for. -/
def Pc.sets : Pc → Option ℕ
  | .invokeBusy _ c | .closeBusy _ c => some c
  | _ => none

/-- The faults that a step may have. -/
def Allowed (m : Manager n) (t : Fin n) (pc : Pc) : Fault → Prop
  | .useAfterFree | .badContext | .refCount => False
  | .assert => True
  | .panic => ∃ c busy l, pc.sets = some c
    ∧ teeTaTrySetBusy (m.ctx c).flags (m.ctx c).busy m.lock t = .done (false, busy, l)

/-- What is to be shown of a step of a frame. -/
def Good (φ : Prop) (s : State n) (t : Fin n) (pc : Pc) : Next n → Prop
  | .ok (m', fs') => SessStep s.mgr s.roles t pc m' fs' ∧ CtxStep s.mgr s.ctxRoles pc m' fs'
      ∧ BusyStep s.mgr t pc m' fs' ∧ Delivers φ s.mgr m' ∧ (∀ pc' ∈ fs', FrameOk φ m' pc')
      ∧ ∀ pc' ∈ fs', pc'.cancels = true → pc.cancels = true ∧ fs' = [pc']
  | .error e => Allowed s.mgr t pc e

/-- What the invariants look at in a frame. -/
def Pc.shape (pc : Pc) : Option (ℕ × Role) × Option (ℕ × CtxRole) × Option ℕ × Bool :=
  (pc.role, pc.ctxRole, pc.inside, pc.cancels)

theorem useSession_eq (h : (m.sess a).freed = false) : useSession m a = .ok (m.sess a) := by
  simp [useSession, h]

section

variable (h : Inv φ s) (ht : s.threads t = pc :: fs)
include h ht

theorem Inv.knows {r : Role} (hr : pc.role = some (a, r)) : pc.Knows φ s.mgr.ctx (s.mgr.sess a) :=
  h.frames t pc (ht ▸ List.mem_cons_self) a r hr

omit h in
theorem roles_cons : s.roles t = pc.role.toList ++ fs.filterMap Pc.role := by
  unfold State.roles
  rw [ht, List.filterMap_cons]
  cases pc.role <;> rfl

omit h in
theorem ctxRoles_cons : s.ctxRoles t = pc.ctxRole.toList ++ fs.filterMap Pc.ctxRole := by
  unfold State.ctxRoles
  rw [ht, List.filterMap_cons]
  cases pc.ctxRole <;> rfl

omit h in
theorem mem_roles {r : Role} (hr : pc.role = some (a, r)) : (a, r) ∈ s.roles t := by
  rw [roles_cons ht, hr]
  exact List.mem_cons_self

omit h in
theorem mem_ctxRoles {r : CtxRole} (hr : pc.ctxRole = some (c, r)) : (c, r) ∈ s.ctxRoles t := by
  rw [ctxRoles_cons ht, hr]
  exact List.mem_cons_self

theorem Inv.live {r : Role} (hr : pc.role = some (a, r)) :
    a < s.mgr.nextSess ∧ (s.mgr.sess a).freed = false :=
  ⟨h.reg.fresh _ _ (mem_roles ht hr), h.reg.not_freed (mem_roles ht hr)⟩

end

/-! ### Steps that change nothing, or one session -/

/-- What the invariants look at in frames. -/
def shapes (fs : List Pc) : List (ℕ × Role) × List (ℕ × CtxRole) × List ℕ :=
  (fs.filterMap Pc.role, fs.filterMap Pc.ctxRole, fs.filterMap Pc.inside)

theorem shapes_singleton (h : pc'.shape = pc.shape) :
    shapes [pc'] = (pc.role.toList, pc.ctxRole.toList, pc.inside.toList) := by
  obtain ⟨h1, h2, h3, -⟩ : pc'.role = pc.role ∧ pc'.ctxRole = pc.ctxRole ∧ pc'.inside = pc.inside
      ∧ pc'.cancels = pc.cancels := by simpa [Pc.shape] using h
  simp only [shapes, List.filterMap_cons, List.filterMap_nil, h1, h2, h3]
  cases pc.role <;> cases pc.ctxRole <;> cases pc.inside <;> rfl

theorem BusyStep.of_ctx_eq (hctx : m'.ctx = m.ctx) (hlock : m'.lock = m.lock)
    (hin : fs'.filterMap Pc.inside = pc.inside.toList) : BusyStep m t pc m' fs' :=
  .same hlock (fun _ => by rw [hctx]) (fun _ => .inl (by rw [hctx])) hin

theorem BusyStep.of_update {x' : TaCtx} (hctx : m'.ctx = Function.update m.ctx c x')
    (hlock : m'.lock = m.lock) (hb : x'.busy = (m.ctx c).busy)
    (hfl : x'.flags = (m.ctx c).flags ∨ pc.ctxRole = some (c, .loads) ∨ c = m.nextCtx)
    (hin : fs'.filterMap Pc.inside = pc.inside.toList) : BusyStep m t pc m' fs' := by
  refine .same hlock (fun d => ?_) (fun d => ?_) hin
  · rw [hctx, Function.update_apply]
    split_ifs with hd
    · rw [hb, hd]
    · rfl
  · rw [hctx, Function.update_apply]
    split_ifs with hd
    · rw [hd]
      exact hfl
    · exact .inl rfl

theorem Inv.good_quiet (h : Inv φ s) (hm : m' = { s.mgr with returns := m'.returns })
    (hfs : shapes fs' = (pc.role.toList, pc.ctxRole.toList, pc.inside.toList))
    (hk : ∀ pc' ∈ fs', FrameOk φ m' pc')
    (hc : ∀ pc' ∈ fs', pc'.cancels = true → pc.cancels = true ∧ fs' = [pc']) :
    Good φ s t pc (.ok (m', fs')) := by
  obtain ⟨hr, hcr, hin⟩ : _ ∧ _ ∧ _ := by simpa [shapes] using hfs
  have hctx : m'.ctx = s.mgr.ctx := by rw [hm]
  have hsess : m'.sess = s.mgr.sess := by rw [hm]
  have hnext : m'.nextSess = s.mgr.nextSess := by rw [hm]
  refine ⟨.same hsess hnext (by rw [hm]) hr, .same (fun d => ?_) (fun d _ => by rw [hctx])
    (by rw [hm]) (by rw [hm]) (fun d => att_congr hsess hnext) ?_ hcr,
    .of_ctx_eq hctx (by rw [hm]) hin, .inl (by rw [hm]), hk, hc⟩
  · rw [hctx]
    exact .refl
  · rw [hsess, hnext]
    exact h.ctxs.sess

theorem Inv.good_next (h : Inv φ s) (ht : s.threads t = pc :: fs)
    (hm : m' = { s.mgr with returns := m'.returns }) (hshape : pc'.shape = pc.shape)
    (hk : ∀ a r, pc.role = some (a, r) → pc.Knows φ s.mgr.ctx (s.mgr.sess a) →
      pc'.Knows φ s.mgr.ctx (s.mgr.sess a)) :
    Good φ s t pc (.ok (m', [pc'])) := by
  have hrole : pc'.role = pc.role := congrArg (·.1) hshape
  have hcanc : pc'.cancels = pc.cancels := congrArg (·.2.2.2) hshape
  refine h.good_quiet hm (shapes_singleton hshape) ?_ ?_
  · simp only [List.mem_singleton, forall_eq]
    intro a r hr
    rw [hm]
    exact hk a r (hrole ▸ hr) (h.knows ht (hrole ▸ hr))
  · simp only [List.mem_singleton, forall_eq, and_true, hcanc]
    exact fun hpc => hpc

theorem Inv.good_end (h : Inv φ s) (hm : m' = { s.mgr with returns := m'.returns })
    (hfs : shapes [] = (pc.role.toList, pc.ctxRole.toList, pc.inside.toList)) :
    Good φ s t pc (.ok (m', [])) :=
  h.good_quiet hm hfs (by simp) (by simp)

theorem Inv.good_move {ρ ρ' : Option Role} (h : Inv φ s) (hρ : pc.role.toList = roleAt a ρ)
    (ha : a < s.mgr.nextSess) (hf : (s.mgr.sess a).freed = false)
    (hmv : (s.mgr.sess a).Move t (hasOf s.roles a) ρ σ' ρ') (hset : σ'.Settles)
    (hatt : (σ'.ctx, σ'.freed) = ((s.mgr.sess a).ctx, (s.mgr.sess a).freed))
    (hm : m' = { s.mgr with
      sess := Function.update s.mgr.sess a σ'
      lists := if Removes ρ ρ' then (s.mgr.unlist a).lists else s.mgr.lists
      returns := m'.returns })
    (hfs : shapes fs' = (roleAt a ρ', pc.ctxRole.toList, pc.inside.toList))
    (hk : ∀ pc' ∈ fs', pc'.role.isSome → pc'.Knows φ s.mgr.ctx σ')
    (hc : ∀ pc' ∈ fs', pc'.cancels = true → pc.cancels = true ∧ fs' = [pc']) :
    Good φ s t pc (.ok (m', fs')) := by
  obtain ⟨hr, hcr, hin⟩ : _ ∧ _ ∧ _ := by simpa [shapes] using hfs
  obtain ⟨hσc, hσf⟩ : σ'.ctx = (s.mgr.sess a).ctx ∧ σ'.freed = (s.mgr.sess a).freed := by
    simpa using hatt
  have hctx : m'.ctx = s.mgr.ctx := by rw [hm]
  have hsess : m'.sess = Function.update s.mgr.sess a σ' := by rw [hm]
  have hnext : m'.nextSess = s.mgr.nextSess := by rw [hm]
  refine ⟨.change a ρ σ' ρ' ha hf hρ hmv hset hsess hnext (by rw [hm]) hr,
    .same (fun d => ?_) (fun d _ => by rw [hctx]) (by rw [hm]) (by rw [hm]) (fun d => ?_) ?_ hcr,
    .of_ctx_eq hctx (by rw [hm]) hin, .inl (by rw [hm]), ?_, hc⟩
  · rw [hctx]
    exact .refl
  · exact att_eq ha hsess hnext (attached_congr hσc hσf)
  · intro b hb d hd
    rw [hnext] at hb
    rw [hsess] at hd
    rcases eq_or_ne b a with rfl | hne
    · rw [Function.update_self, hσc] at hd
      exact h.ctxs.sess b hb d hd
    · rw [Function.update_of_ne hne] at hd
      exact h.ctxs.sess b hb d hd
  · intro pc' hmem b r hb
    have hba : (b, r) ∈ roleAt a ρ' := hr ▸ List.mem_filterMap.2 ⟨pc', hmem, hb⟩
    have hba : b = a := by
      cases ρ' <;> simp [roleAt] at hba
      exact hba.1
    rw [hctx, hsess, hba, Function.update_self]
    exact hk pc' hmem (by rw [hb]; rfl)

/-! ### Steps that change one context -/

section

variable {x' : TaCtx} {linked' : Prop} {κ κ' : Option CtxRole} {l : List ℕ}

theorem mem_erase_iff_ite (hl : l.Nodup) (d : ℕ) :
    d ∈ l.erase c ↔ if d = c then False else d ∈ l := by
  rw [hl.mem_erase_iff]
  split_ifs with hd <;> simp [hd]

theorem mem_append_iff_ite (d : ℕ) : d ∈ l ++ [c] ↔ if d = c then True else d ∈ l := by
  split_ifs with hd <;> simp [hd]

theorem mem_iff_ite (d : ℕ) : d ∈ l ↔ if d = c then c ∈ l else d ∈ l := by
  split_ifs with hd <;> simp [hd]

theorem Inv.ctx_lt {r : Role} (h : Inv φ s) (ht : s.threads t = pc :: fs)
    (hr : pc.role = some (a, r)) (hc : (s.mgr.sess a).ctx = some c) : c < s.mgr.nextCtx :=
  h.ctxs.sess a (h.live ht hr).1 c hc

theorem Inv.good_ctx (h : Inv φ s) (ht : s.threads t = pc :: fs) (hc : c < s.mgr.nextCtx)
    (hκ : pc.ctxRole.toList = roleAt c κ)
    (hmv : (s.mgr.ctx c).Move (c ∈ s.mgr.teeCtxes) (ctxHasOf s.mgr s.ctxRoles c)
      (CtxRole.has 0 κ) x' linked' (CtxRole.has 0 κ'))
    (hbusy : x'.busy = (s.mgr.ctx c).busy)
    (hflags : x'.flags = (s.mgr.ctx c).flags ∨ pc.ctxRole = some (c, .loads))
    (hm : m' = { s.mgr with
      ctx := Function.update s.mgr.ctx c x', teeCtxes := m'.teeCtxes, returns := m'.returns })
    (hlink : ∀ d, d ∈ m'.teeCtxes ↔ if d = c then linked' else d ∈ s.mgr.teeCtxes)
    (hnodup : m'.teeCtxes.Nodup)
    (hfs : shapes fs' = (pc.role.toList, roleAt c κ', pc.inside.toList))
    (hk : ∀ pc' ∈ fs', ∀ a r, pc'.role = some (a, r) → pc.role = some (a, r)
      ∧ (pc.Knows φ s.mgr.ctx (s.mgr.sess a) →
        pc'.Knows φ s.mgr.ctx (s.mgr.sess a)))
    (hcanc : ∀ pc' ∈ fs', pc'.cancels = false) : Good φ s t pc (.ok (m', fs')) := by
  obtain ⟨hr, hcr, hin⟩ : _ ∧ _ ∧ _ := by simpa [shapes] using hfs
  have hctx : m'.ctx = Function.update s.mgr.ctx c x' := by rw [hm]
  have hsess : m'.sess = s.mgr.sess := by rw [hm]
  have hnext : m'.nextSess = s.mgr.nextSess := by rw [hm]
  refine ⟨.same hsess hnext (by rw [hm]) hr,
    .change c 0 κ x' linked' 0 κ' hc hκ hmv hctx (by rw [hm]) hlink hnodup
      (fun d => by rw [att_congr hsess hnext]) (Nat.zero_le _) ?_ hcr,
    .of_update hctx (by rw [hm]) hbusy (hflags.imp_right .inl) hin, .inl (by rw [hm]), ?_, ?_⟩
  · rw [hsess, hnext]
    exact h.ctxs.sess
  · intro pc' hmem b r hb
    obtain ⟨hbr, hkn⟩ := hk pc' hmem b r hb
    rw [hsess]
    refine (hkn (h.knows ht hbr)).later .refl fun d _ => ?_
    rw [hctx, Function.update_apply]
    split_ifs with hd
    · rw [hd]
      exact hmv.later
    · exact .refl
  · intro pc' hmem hpc
    rw [hcanc pc' hmem] at hpc
    cases hpc

/-- Frame `pc'` takes the place of `pc`: it holds the same, has nothing to cancel and asks for no
more. -/
structure Pc.Replaced (φ : Prop) (m : Manager n) (pc pc' : Pc) : Prop where
  role : pc'.role = pc.role
  ctxRole : pc'.ctxRole = pc.ctxRole
  cancels : pc'.cancels = false
  knows : ∀ a r, pc.role = some (a, r) → ∀ p, pc.Knows φ p (m.sess a) → pc'.Knows φ p (m.sess a)

theorem Inv.good_alike (h : Inv φ s) (ht : s.threads t = pc :: fs) (hc : c < s.mgr.nextCtx)
    (halike : (s.mgr.ctx c).Alike x')
    (hm : m' = { s.mgr with ctx := Function.update s.mgr.ctx c x', lock := m'.lock })
    (hbusy : BusyStep s.mgr t pc m' [pc']) (hp : pc.Replaced φ s.mgr pc') :
    Good φ s t pc (.ok (m', [pc'])) := by
  obtain ⟨hrole, hcr, hcanc, hk⟩ := hp
  have hctx : m'.ctx = Function.update s.mgr.ctx c x' := by rw [hm]
  have hsess : m'.sess = s.mgr.sess := by rw [hm]
  have hnext : m'.nextSess = s.mgr.nextSess := by rw [hm]
  have hall : ∀ d, (s.mgr.ctx d).Alike (m'.ctx d) := fun d => by
    rw [hctx, Function.update_apply]
    split_ifs with hd
    · rw [hd]
      exact halike
    · exact .refl
  refine ⟨.same hsess hnext (by rw [hm]) ?_,
    .same hall (fun d hd => ?_) (by rw [hm]) (by rw [hm]) (fun d => att_congr hsess hnext) ?_ ?_,
    hbusy, .inl (by rw [hm]), ?_, ?_⟩
  · cases hr : pc.role <;> simp [hrole, hr]
  · rw [hctx, Function.update_of_ne (by omega)]
  · rw [hsess, hnext]
    exact h.ctxs.sess
  · cases hr : pc.ctxRole <;> simp [hcr, hr]
  · simp only [List.mem_singleton, forall_eq]
    intro a r hr
    rw [hsess]
    refine hk a r (hrole ▸ hr) _ ((h.knows ht (hrole ▸ hr)).later .refl fun d _ => (hall d).later)
  · simp [hcanc]

end

/-! ### Sections -/

theorem teeTaPutSession_eq (h : (m.sess a).freed = false) :
    teeTaPutSession m t a = if (m.sess a).refCount = 0 then .error .assert
      else .ok (m.modSess a fun s => { s with
        refCount := s.refCount - 1
        lockThread := if s.lockThread = some t then none else s.lockThread }) := by
  simp only [teeTaPutSession, useSession_eq h, decSessionRefCount]
  by_cases hl : (m.sess a).lockThread = some t
  · simp [Manager.modSess, hl, Bind.bind, Except.bind]
  · simp [Manager.modSess, hl, Bind.bind, Except.bind]

theorem teeTaGetSession_cases (m : Manager n) (t : Fin n) (o : Option ℕ) (id : BitVec 32)
    (ex : Bool) :
    (teeTaGetSession m t o id ex = .ok (m, none)
        ∧ ∀ a, teeTaFindSession m o id = some a → (m.sess a).unlink = true)
      ∨ ∃ a, teeTaFindSession m o id = some a
        ∧ ((ex = false ∧ teeTaGetSession m t o id ex
            = .ok (m.modSess a fun s => { s with refCount := s.refCount + 1 }, some (a, true)))
          ∨ teeTaGetSession m t o id ex = .error .assert
          ∨ (ex = true ∧ (m.sess a).lockThread = none ∧ teeTaGetSession m t o id ex
            = .ok (m.modSess a fun s => { s with
                refCount := s.refCount + 1, lockThread := some t }, some (a, true)))
          ∨ (ex = true ∧ teeTaGetSession m t o id ex
            = .ok (m.modSess a fun s => { s with refCount := s.refCount + 1 },
              some (a, false)))) := by
  unfold teeTaGetSession
  cases hfind : teeTaFindSession m o id with
  | none => simp
  | some a =>
    cases hu : (m.sess a).unlink with
    | true => simp [hu]
    | false =>
      refine .inr ⟨a, rfl, ?_⟩
      cases ex with
      | false => simp [hu]
      | true =>
        by_cases hown : (m.sess a).lockThread = some t
        · simp [hu, hown, Manager.modSess]
        · by_cases hfree : (m.sess a).lockThread = none
          · simp [hu, hfree, Manager.modSess]
          · simp [hu, hown, hfree, Manager.modSess]

theorem find_mem {o : Option ℕ} {id : BitVec 32} (h : teeTaFindSession m o id = some a) :
    a ∈ m.lists o ∧ (m.sess a).id = id :=
  ⟨List.mem_of_find?_eq_some h, by simpa using List.find?_some h⟩

theorem initLookup_cases (m : Manager n) (x : OpenArgs) (a : ℕ) :
    (∃ pc, initLookup m x a = (m, [pc]) ∧ pc.shape = (some (a, .opener), none, none, false)
        ∧ ∀ φ p, ∀ σ : Session n, σ.ctx = none → pc.Knows φ p σ)
      ∨ ∃ c ∈ m.teeCtxes, (m.ctx c).flags.singleInstance = true
        ∧ ¬ ((m.ctx c).kind = .user ∧ (m.ctx c).isInitializing = true)
        ∧ initLookup m x a = ((m.modCtx c fun y => { y with refCount := y.refCount + 1 }).modSess a
          fun s => { s with ctx := some c }, [.openParams x a]) := by
  unfold initLookup
  split
  · exact .inl ⟨_, rfl, rfl, fun _ _ _ hσ => hσ⟩
  · exact .inl ⟨_, rfl, rfl, fun _ _ _ hσ => hσ⟩
  · exact .inl ⟨_, rfl, rfl, fun _ _ _ hσ => hσ⟩
  · rename_i c hc
    unfold teeTaInitSessionWithContext at hc
    split at hc
    · cases hc
    · rename_i d hd
      split_ifs at hc with hinit hsingle hmulti
      cases hc
      exact .inr ⟨c, List.mem_of_find?_eq_some hd, by simpa using hsingle, hinit, rfl⟩

theorem newSessionId_spec {o : Option ℕ} (h : newSessionId m o ≠ 0) :
    ∀ b ∈ m.lists o, (m.sess b).id ≠ newSessionId m o := by
  have hloop : ∀ count id, newSessionIdLoop m o count id ≠ 0 →
      teeTaFindSession m o (newSessionIdLoop m o count id) = none := by
    intro count
    induction count with
    | zero => exact fun _ hne => absurd rfl hne
    | succ count ih =>
      intro id hne
      simp only [newSessionIdLoop] at hne ⊢
      split
      · assumption
      · rw [if_neg ‹_›] at hne
        exact ih _ hne
  have hnone := hloop _ _ h
  simpa [teeTaFindSession, newSessionId] using hnone

theorem trySetBusy_eq {rc : Bool} (hb : trySetBusy m t c = .done (rc, m')) :
    ∃ busy l, teeTaTrySetBusy (m.ctx c).flags (m.ctx c).busy m.lock t = .done (rc, busy, l)
      ∧ m'
        = { m with ctx := Function.update m.ctx c { m.ctx c with busy := busy }, lock := l } := by
  unfold trySetBusy at hb
  split at hb <;> simp only [Section.done.injEq, Prod.mk.injEq, reduceCtorEq] at hb
  obtain ⟨rfl, rfl⟩ := hb
  exact ⟨_, _, ‹_›, rfl⟩

theorem clearBusy_eq (hb : clearBusy m t c = .ok m') :
    ∃ busy l, teeTaClearBusy (m.ctx c).flags (m.ctx c).busy m.lock t = .done (busy, l)
      ∧ m'
        = { m with ctx := Function.update m.ctx c { m.ctx c with busy := busy }, lock := l } := by
  unfold clearBusy at hb
  split at hb <;> simp only [Except.ok.injEq, reduceCtorEq] at hb
  subst hb
  exact ⟨_, _, ‹_›, rfl⟩

theorem clearBusy_error {e : Fault} (hb : clearBusy m t c = .error e) : e = .assert := by
  unfold clearBusy at hb
  split at hb <;> simp only [Except.error.injEq, reduceCtorEq] at hb
  exact hb.symm

end Optee.TaManager
