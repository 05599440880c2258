import Mathlib
import Optee.Proofs.TaStep

/-!
# Every frame

One lemma for each frame of the calls of the manager: what its step does, from what it knows.
-/

namespace Optee.TaManager

variable {n : ℕ} {φ : Prop} {s : State n} {m m' : Manager n} {t u : Fin n} {a b c : ℕ}
  {σ' : Session n} {pc pc' : Pc} {fs fs' : List Pc} {sdp : Bool} {i : Input}

/-- A step from a frame on top of a stack of `s` is a good one. -/
def Pc.Steps (φ : Prop) (s : State n) (t : Fin n) (pc : Pc) : Prop :=
  ∀ ⦃sdp i fs⦄, s.threads t = pc :: fs → Good φ s t pc (pc.step sdp s.mgr t i)

section

variable (h : Inv φ s)
include h

/-! ## What a frame can count on -/

theorem Inv.opener (hr : (a, Role.opener) ∈ s.roles t) :
    (s.mgr.sess a).settled = false ∧ (s.mgr.sess a).lockThread ≠ some t := by
  have ha := h.reg.fresh _ _ hr
  have hf := h.reg.not_freed hr
  have hphase := (h.reg.alive ha hf).phase
  have hopen : held Role.opens a (a, .opener) ≤ total (held Role.opens a) s.roles := le_total hr
  have hone : held Role.opens a (a, .opener) = 1 := by simp [held, Role.opens]
  have hlocks : total (held Role.locks a) s.roles
      ≤ (hasOf s.roles a).closes + (hasOf s.roles a).uses := by
    simp only [hasOf]
    rw [← total_add]
    refine total_mono fun p => ?_
    unfold held
    split_ifs
    · cases p.2 <;> decide
    · exact le_rfl
  have hsum := h.reg.lock a ha hf t
  have hle : ((s.roles t).map (held Role.locks a)).sum ≤ total (held Role.locks a) s.roles :=
    sum_le_total
  simp only [hasOf] at hphase hlocks
  obtain ⟨-, ho, -⟩ | ⟨hset, hoc, hu⟩ := hphase
  · omega
  · refine ⟨hset, fun hl => ?_⟩
    rw [if_pos hl] at hsum
    omega

theorem Inv.opener_settles (hr : (a, Role.opener) ∈ s.roles t)
    (hσ : σ'.settled = (s.mgr.sess a).settled) : σ'.Settles := by
  have hno : σ'.settled = false := hσ.trans (h.opener hr).1
  refine ⟨fun hset => absurd (hno.symm.trans hset) (by decide), fun hready => ?_⟩
  simp [Session.settled, hready] at hno

variable {r : Role} {o : Option ℕ} {x : OpenArgs} {res : Except TeeError Unit} {id : BitVec 32}
  {clnt : Client} {params : List Param}

theorem Inv.user_settled (hr : (a, r) ∈ s.roles t) (hu : r.uses = 1) :
    (s.mgr.sess a).settled = true := by
  have hphase := (h.reg.alive (h.reg.fresh _ _ hr) (h.reg.not_freed hr)).phase
  have huse : held Role.uses a (a, r) ≤ total (held Role.uses a) s.roles := le_total hr
  simp only [held, if_true, hu] at huse
  obtain ⟨hset, -⟩ | ⟨-, -, hz⟩ := hphase
  · exact hset
  · simp only [hasOf] at hz
    omega

theorem Inv.canceller (ht : s.threads t = pc :: fs) (hr : pc.role = some (a, .canceller)) :
    (s.mgr.sess a).lockThread ≠ some t := by
  intro hl
  obtain ⟨ha, hf⟩ := h.live ht hr
  have hsum := h.reg.lock a ha hf t
  have hfs : fs = [] := by
    have hpc : pc.cancels = true := by
      cases pc <;> simp_all [Pc.role, Pc.cancels]
    have hone := h.alone t pc (ht ▸ List.mem_cons_self) hpc
    rw [ht] at hone
    simpa using hone
  rw [roles_cons ht, hfs, hr, if_pos hl] at hsum
  simp [held, Role.locks] at hsum

theorem Inv.listed (hmem : a ∈ s.mgr.lists o) :
    a < s.mgr.nextSess ∧ (s.mgr.sess a).freed = false ∧ (s.mgr.sess a).owner = o
      ∧ (hasOf s.roles a).offs = 0 := by
  obtain ⟨ha, ho, -⟩ := h.reg.mem o a hmem
  have hf := h.reg.listed_not_freed hmem
  exact ⟨ha, hf, ho, (h.reg.alive ha hf).listed_iff.1 (ho ▸ hmem)⟩

theorem Inv.closer_finds (ht : s.threads t = pc :: fs) (hr : pc.role = some (a, r))
    (hcl : r = .finder ∨ r = .closer ∨ r = .closerWait) :
    a ∈ s.mgr.lists (s.mgr.sess a).owner ∧ (s.mgr.sess a).unlink = false := by
  obtain ⟨ha, hf⟩ := h.live ht hr
  have halive := h.reg.alive ha hf
  have hroles : s.roles
      = Function.update s.roles t (roleAt a (some r) ++ fs.filterMap Pc.role) := by
    rw [← Function.update_eq_self t s.roles, Function.update_idem, roles_cons ht, hr]
    rfl
  rw [hroles, hasOf_at] at halive
  exact halive.found bounds_hasOf hcl

theorem Inv.loading (hload : (ctxHasOf s.mgr s.ctxRoles c).loads ≠ 0) :
    ∃ u, ∃ pc ∈ s.threads u, ∃ a, pc.ctxRole = some (c, .loads) ∧ pc.role = some (a, .opener)
      ∧ (s.mgr.sess a).ctx = some c := by
  by_contra hno
  refine hload (total_eq_zero.2 fun u q hq => ?_)
  obtain ⟨pc, hpc, hrole⟩ := List.mem_filterMap.1 hq
  obtain ⟨d, r⟩ := q
  by_contra hheld
  obtain ⟨rfl, rfl⟩ : d = c ∧ r = .loads := by
    unfold held at hheld
    simpa using hheld
  refine hno ⟨u, pc, hpc, ?_⟩
  cases pc with
  | initStmm x a e =>
    cases hrole
    exact ⟨a, rfl, rfl, (h.frames u _ hpc a _ rfl).1⟩
  | initUser x a e =>
    cases hrole
    exact ⟨a, rfl, rfl, (h.frames u _ hpc a _ rfl).1⟩
  | drain e destroy => cases destroy <;> cases hrole
  | _ => cases hrole

theorem Inv.not_loading (ht : s.threads t = pc :: fs) (hr : pc.role = some (a, r))
    (hc : (s.mgr.sess a).ctx = some c) (hpc : pc.ctxRole ≠ some (c, .loads)) :
    (ctxHasOf s.mgr s.ctxRoles c).loads = 0 := by
  by_contra hload
  obtain ⟨ha, hf⟩ := h.live ht hr
  have hok := h.ctxs.ok c (h.ctx_lt ht hr hc)
  obtain ⟨u, pc', hmem, b, hrole', hr', hcb⟩ := h.loading hload
  obtain ⟨-, hone, -⟩ := hok.loads (Nat.pos_of_ne_zero hload)
  have hz : (s.mgr.ctx c).destroys = 0 := by
    by_contra hd
    exact hload (hok.gone (by omega)).2.2.1
  have hatt : att s.mgr c ≤ 1 := by
    have hrefs := hok.refs hz
    simp only [ctxHasOf] at hrefs
    omega
  have hrb : (b, Role.opener) ∈ s.roles u := List.mem_filterMap.2 ⟨pc', hmem, hr'⟩
  obtain rfl := att_le_one hatt ha hf hc (h.reg.fresh _ _ hrb) (h.reg.not_freed hrb) hcb
  have hR : s.roles t = (a, r) :: fs.filterMap Pc.role := by rw [roles_cons ht, hr]; rfl
  refine h.reg.opener_alone (u := u) hR ?_ (.inr rfl)
  rcases eq_or_ne u t with rfl | hne
  · rw [ht] at hmem
    rcases List.mem_cons.1 hmem with rfl | hmem
    · exact absurd hrole' hpc
    · rw [Function.update_self]
      exact List.mem_filterMap.2 ⟨pc', hmem, hr'⟩
  · rwa [Function.update_of_ne hne]

theorem Inv.owing (ht : s.threads t = pc :: fs) (hpc : pc.ctxRole = some (c, .owes)) :
    c < s.mgr.nextCtx ∧ (ctxHasOf s.mgr s.ctxRoles c).loads = 0 ∧ 0 < (s.mgr.ctx c).refCount
      ∧ (s.mgr.ctx c).destroys = 0 := by
  have hmem := mem_ctxRoles ht hpc
  have hc := h.ctxs.fresh _ _ hmem
  have hok := h.ctxs.ok c hc
  have howe : 0 < (ctxHasOf s.mgr s.ctxRoles c).owes := by
    have hle := le_total (f := held (fun r => if r = CtxRole.owes then 1 else 0) c) hmem
    simp only [held, if_true] at hle
    exact hle
  have hz : (s.mgr.ctx c).destroys = 0 := by
    by_contra hd
    have := (hok.gone (by omega)).2.1
    omega
  have hrefs := hok.refs hz
  refine ⟨hc, ?_, by omega, hz⟩
  by_contra hload
  obtain ⟨u, pc', hmem', b, -, hr', hcb⟩ := h.loading hload
  have hrb : (b, Role.opener) ∈ s.roles u := List.mem_filterMap.2 ⟨pc', hmem', hr'⟩
  have hpos := att_pos (h.reg.fresh _ _ hrb) (h.reg.not_freed hrb) hcb
  obtain ⟨-, hone, -⟩ := hok.loads (Nat.pos_of_ne_zero hload)
  simp only [ctxHasOf] at hrefs howe hone
  omega

/-! ## `tee_ta_init_session` -/

theorem Inv.sess_ctx_lt {N : ℕ} (hsess : m'.sess = Function.update s.mgr.sess a σ')
    (hnext : m'.nextSess = s.mgr.nextSess) (hN : s.mgr.nextCtx ≤ N) (hσ : ∀ c ∈ σ'.ctx, c < N) :
    ∀ b < m'.nextSess, ∀ c ∈ (m'.sess b).ctx, c < N := by
  intro b hb d hd
  rw [hsess] at hd
  rcases eq_or_ne b a with rfl | hne
  · rw [Function.update_self] at hd
    exact hσ d hd
  · rw [Function.update_of_ne hne] at hd
    exact (h.ctxs.sess b (hnext ▸ hb) d hd).trans_le hN

theorem Inv.good_alloc {x : OpenArgs} {id : BitVec 32} (hid : id ≠ 0)
    (hnew : ∀ b ∈ s.mgr.lists x.owner, (s.mgr.sess b).id ≠ id) (hm : m = { s.mgr with
      sess := Function.update s.mgr.sess s.mgr.nextSess
        { Session.zero with id := id, owner := x.owner, refCount := 1 }
      nextSess := s.mgr.nextSess + 1
      lists := Function.update s.mgr.lists x.owner (s.mgr.lists x.owner ++ [s.mgr.nextSess]) }) :
    Good φ s t (.init x) (.ok (initLookup m x s.mgr.nextSess)) := by
  have hlt : ∀ {σ : Session n} {m' : Manager n},
      m'.sess = Function.update s.mgr.sess s.mgr.nextSess σ →
      m'.nextSess = s.mgr.nextSess + 1 → (∀ c ∈ σ.ctx, c < s.mgr.nextCtx) →
      ∀ b < m'.nextSess, ∀ c ∈ (m'.sess b).ctx, c < s.mgr.nextCtx := by
    intro σ m' hsess hnext hσ b hb d hd
    rw [hsess] at hd
    rcases eq_or_ne b s.mgr.nextSess with rfl | hne
    · rw [Function.update_self] at hd
      exact hσ d hd
    · rw [Function.update_of_ne hne] at hd
      exact h.ctxs.sess b (by omega) d hd
  obtain ⟨pc, he, hshape, hpc⟩ | ⟨c, hmem, hsingle, hinit, he⟩ :=
    initLookup_cases m x s.mgr.nextSess
  · have hctx : m.ctx = s.mgr.ctx := by rw [hm]
    have hsess : m.sess = Function.update s.mgr.sess s.mgr.nextSess
      { Session.zero with id := id, owner := x.owner, refCount := 1 } := by rw [hm]
    have hnext : m.nextSess = s.mgr.nextSess + 1 := by rw [hm]
    obtain ⟨hr, hcr, hin, hc⟩ : pc.role = some (s.mgr.nextSess, .opener) ∧ pc.ctxRole = none
      ∧ pc.inside = none ∧ pc.cancels = false := by simpa [Pc.shape] using hshape
    rw [he]
    refine ⟨.alloc x.owner id none hid hnew rfl hsess hnext (by rw [hm]) (by simp [hr]),
      .same (fun d => ?_) (fun d _ => by rw [hctx]) (by rw [hm]) (by rw [hm]) (fun d => ?_)
        (hlt hsess hnext (by simp [Session.zero])) (by simp [hcr]; rfl),
      .of_ctx_eq hctx (by rw [hm]) (by simp [hin]; rfl), .inl (by rw [hm]), ?_, by simp [hc]⟩
    · rw [hctx]
      exact .refl
    · rw [att_alloc hsess hnext, attached_of_none rfl, add_zero]
    · simp only [List.mem_singleton, forall_eq]
      intro b r hb
      cases hr.symm.trans hb
      rw [hsess, Function.update_self]
      exact hpc _ _ _ rfl
  · rw [he]
    have hc : c < s.mgr.nextCtx := h.ctxs.linked c (by rwa [hm] at hmem)
    have hsess : ((m.modCtx c fun y => { y with refCount := y.refCount + 1 }).modSess s.mgr.nextSess
        fun s => { s with ctx := some c }).sess = Function.update s.mgr.sess s.mgr.nextSess
          { Session.zero with id := id, owner := x.owner, refCount := 1, ctx := some c } := by
      simp [Manager.modSess, Manager.modCtx, hm]
    subst hm
    refine ⟨.alloc x.owner id (some c) hid hnew rfl hsess rfl rfl rfl,
      .change c 0 none { s.mgr.ctx c with refCount := (s.mgr.ctx c).refCount + 1 }
        (c ∈ s.mgr.teeCtxes) 1 none hc rfl (.attach hmem hsingle hinit) rfl rfl mem_iff_ite
        h.ctxs.nodup (fun d => ?_) (Nat.zero_le _) (hlt hsess rfl (by simpa using hc)) rfl,
      .of_update (c := c) rfl rfl rfl (.inl rfl) rfl, .inl rfl, ?_, by simp [Pc.cancels]⟩
    · rw [att_alloc hsess rfl, attached_of_ctx rfl rfl]
      simp
    · simp only [List.mem_singleton, forall_eq]
      rintro b r ⟨⟩
      rw [hsess, Function.update_self]
      rfl

theorem Inv.good_init : (Pc.init x).Steps φ s t := by
  intro sdp i fs ht
  simp only [Pc.step]
  split
  · split_ifs with hid
    · exact h.good_end rfl rfl
    · exact h.good_alloc hid (newSessionId_spec hid) rfl
  · exact h.good_end rfl rfl
  · exact h.good_next ht rfl rfl fun _ _ _ hk => hk

theorem Inv.good_attach (ctx : Option ℕ) (ht : s.threads t = pc :: fs)
    (hr : pc.role = some (a, .opener))
    (hm : m' = { s.mgr with
      sess := Function.update s.mgr.sess a { s.mgr.sess a with ctx := ctx }
      ctx := m'.ctx, nextCtx := m'.nextCtx, teeCtxes := m'.teeCtxes })
    (hcs : (∀ d, att m' d + (if (s.mgr.sess a).ctx = some d then 1 else 0)
      = att s.mgr d + if ctx = some d then 1 else 0) →
      (∀ N, s.mgr.nextCtx ≤ N → (∀ c ∈ ctx, c < N) →
        ∀ b < m'.nextSess, ∀ c ∈ (m'.sess b).ctx, c < N) →
      CtxStep s.mgr s.ctxRoles pc m' [pc'])
    (hbs : BusyStep s.mgr t pc m' [pc']) (hr' : pc'.role = some (a, .opener))
    (hc : pc'.cancels = false) (hk : ∀ σ : Session n, σ.ctx = ctx → pc'.Knows φ m'.ctx σ) :
    Good φ s t pc (.ok (m', [pc'])) := by
  obtain ⟨ha, hf⟩ := h.live ht hr
  have hsess : m'.sess = Function.update s.mgr.sess a { s.mgr.sess a with ctx := ctx } := by rw [hm]
  have hnext : m'.nextSess = s.mgr.nextSess := by rw [hm]
  have hmv : (s.mgr.sess a).Move t (hasOf s.roles a) (some .opener)
      { s.mgr.sess a with ctx := ctx } (some .opener) := .setup
  refine ⟨.change a _ _ _ ha hf (by rw [hr]; rfl) hmv (h.opener_settles (mem_roles ht hr) rfl) hsess
      hnext (by rw [hm]; rfl) (by simp [hr', roleAt]),
    hcs (fun d => ?_) fun N hN hctx => h.sess_ctx_lt hsess hnext hN hctx,
    hbs, .inl (by rw [hm]), ?_, by simp [hc]⟩
  · have hup := att_update (c := d) ha hsess hnext
    rw [attached_of_live hf] at hup
    exact hup.trans (by rw [attached_of_live (by exact hf)])
  · simp only [List.mem_singleton, forall_eq]
    intro b r hb
    cases hr'.symm.trans hb
    rw [hsess, Function.update_self]
    exact hk _ rfl

theorem Inv.good_initWait : (Pc.initWait x a).Steps φ s t := by
  intro sdp i fs ht
  obtain ⟨ha, hf⟩ := h.live ht rfl
  have hk : (s.mgr.sess a).ctx = none := h.knows ht rfl
  simp only [Pc.step]
  obtain ⟨pc, he, hshape, hpc⟩ | ⟨c, hmem, hsingle, hinit, he⟩ := initLookup_cases s.mgr x a
  · rw [he]
    exact h.good_next ht rfl hshape fun b r hb hk => by cases hb; exact hpc _ _ _ hk
  · rw [he]
    refine h.good_attach (some c) ht rfl rfl (fun hatt hlt => ?_)
      (.of_update (c := c) rfl rfl rfl (.inl rfl) rfl) rfl rfl fun _ hσ => by
        simp [Pc.Knows, hσ]
    · refine .change c 0 none _ (c ∈ s.mgr.teeCtxes) 1 none (h.ctxs.linked c hmem) rfl
        (.attach hmem hsingle hinit) rfl rfl mem_iff_ite h.ctxs.nodup (fun d => ?_) (Nat.zero_le _)
        (hlt _ le_rfl (by simpa using h.ctxs.linked c hmem)) rfl
      simpa [hk, eq_comm] using hatt d

theorem Inv.good_new {x : OpenArgs} {x' : TaCtx} (linked' : Prop) (κ' : Option CtxRole)
    (ht : s.threads t = .initLoad x a :: fs) (hok : CtxOk x' linked' (CtxRole.has 1 κ'))
    (hbusy : x'.busy = false)
    (hm : m' = { s.mgr with
      sess := Function.update s.mgr.sess a { s.mgr.sess a with ctx := some s.mgr.nextCtx }
      ctx := Function.update s.mgr.ctx s.mgr.nextCtx x'
      nextCtx := s.mgr.nextCtx + 1, teeCtxes := m'.teeCtxes })
    (hlink : m'.teeCtxes = s.mgr.teeCtxes ++ [s.mgr.nextCtx] ∧ linked'
      ∨ m'.teeCtxes = s.mgr.teeCtxes ∧ ¬ linked')
    (hr' : pc'.role = some (a, .opener))
    (hcr : [pc'].filterMap Pc.ctxRole = roleAt s.mgr.nextCtx κ') (hin : pc'.inside = none)
    (hc : pc'.cancels = false)
    (hk : ∀ σ : Session n, σ.ctx = some s.mgr.nextCtx → pc'.Knows φ m'.ctx σ) :
    Good φ s t (.initLoad x a) (.ok (m', [pc'])) := by
  have hctx : m'.ctx = Function.update s.mgr.ctx s.mgr.nextCtx x' := by rw [hm]
  have hsess : (s.mgr.sess a).ctx = none := h.knows ht rfl
  have hnot : s.mgr.nextCtx ∉ s.mgr.teeCtxes := fun hmem => lt_irrefl _ (h.ctxs.linked _ hmem)
  refine h.good_attach (some s.mgr.nextCtx) ht rfl (by rw [hm]) (fun hatt hlt => ?_)
    (.of_update hctx (by rw [hm]) ?_ (.inr (.inr rfl)) (by simp [hin]; rfl)) hr' hc hk
  · refine .new x' linked' κ' rfl hok hctx (by rw [hm]) (fun d => ?_) ?_ (fun d => ?_)
      (hlt _ (Nat.le_succ _) (by simp)) hcr
    · obtain ⟨hl, hlinked⟩ | ⟨hl, hlinked⟩ := hlink
      · rw [hl, mem_append_iff_ite]
        simp [hlinked]
      · rw [hl]
        split_ifs with hd
        · simp [hd, hnot, hlinked]
        · rfl
    · obtain ⟨hl, -⟩ | ⟨hl, -⟩ := hlink
      · rw [hl]
        exact h.ctxs.nodup.append (List.nodup_singleton _) (by simpa using hnot)
      · rw [hl]
        exact h.ctxs.nodup
    · simpa [hsess, eq_comm] using hatt d
  · rw [hbusy, h.ctxs.unused _ le_rfl]
    rfl

theorem Inv.good_initLoad : (Pc.initLoad x a).Steps φ s t := by
  intro sdp i fs ht
  simp only [Pc.step]
  split
  · refine h.good_new False (some .loads) ht ?_ rfl rfl (.inr ⟨rfl, id⟩) rfl rfl rfl rfl
      fun _ hσ => ⟨hσ, by simp [newCtx, Manager.modSess]⟩
    constructor <;> simp [TaCtx.zero, CtxRole.has]
  · refine h.good_new True none ht ?_ rfl rfl (.inl ⟨rfl, trivial⟩) rfl rfl rfl rfl
      fun _ hσ => by simp [Pc.Knows, hσ]
    constructor <;> simp [TaCtx.zero, CtxRole.has]
  · refine h.good_new True (some .loads) ht ?_ rfl rfl (.inl ⟨rfl, trivial⟩) rfl rfl rfl rfl
      fun _ hσ => ⟨hσ, by simp [newCtx, Manager.modSess]⟩
    constructor <;> simp [TaCtx.zero, CtxRole.has]
  · exact h.good_next ht rfl rfl fun _ _ _ hk => hk
  · exact h.good_next ht rfl rfl fun _ _ _ hk => hk

theorem Inv.good_unload {k : ℕ} {e : TeeError} (ht : s.threads t = pc :: fs)
    (hr : pc.role = some (a, .opener)) (hcr : pc.ctxRole = some (c, .loads))
    (hin : pc.inside = none) (hk : (s.mgr.sess a).ctx = some c) (hk1 : k ≤ 1)
    (hm : m' = { s.mgr with
      sess := Function.update s.mgr.sess a { s.mgr.sess a with ctx := none }
      ctx := Function.update s.mgr.ctx c { s.mgr.ctx c with
        unlinks := (s.mgr.ctx c).unlinks + k, destroys := (s.mgr.ctx c).destroys + 1 }
      teeCtxes := s.mgr.teeCtxes.erase c }) : Good φ s t pc (.ok (m', [.initUndo a e])) := by
  obtain ⟨ha, hf⟩ := h.live ht hr
  have hctx : m'.ctx = Function.update s.mgr.ctx c { s.mgr.ctx c with
    unlinks := (s.mgr.ctx c).unlinks + k, destroys := (s.mgr.ctx c).destroys + 1 } := by rw [hm]
  have hlink : m'.teeCtxes = s.mgr.teeCtxes.erase c := by rw [hm]
  refine h.good_attach none ht hr (by rw [hm]) (fun hatt hlt => ?_)
    (.of_update hctx (by rw [hm]) rfl (.inl rfl) (by rw [hin]; rfl)) rfl rfl fun _ hσ => hσ
  refine .change c 1 (some .loads) _ False 0 none (h.ctx_lt ht hr hk) (by rw [hcr]; rfl)
    (.failed hk1) hctx (by rw [hm]) (fun d => ?_) (hlink ▸ h.ctxs.nodup.erase c) (fun d => ?_)
    (att_pos ha hf hk) (hlt _ le_rfl nofun) rfl
  · rw [hlink, mem_erase_iff_ite h.ctxs.nodup]
  · simpa [hk, eq_comm] using hatt d

theorem Inv.good_loaded {x : OpenArgs} {flags : TaFlags} (linked' : Prop)
    (ht : s.threads t = pc :: fs) (hr : pc.role = some (a, .opener))
    (hcr : pc.ctxRole = some (c, .loads)) (hin : pc.inside = none)
    (hk : (s.mgr.sess a).ctx = some c) (hlinked : c ∈ s.mgr.teeCtxes → linked')
    (hm : m' = { s.mgr with
      ctx := Function.update s.mgr.ctx c { s.mgr.ctx c with
        isInitializing := false, flags := flags }
      teeCtxes := m'.teeCtxes })
    (hlink : ∀ d, d ∈ m'.teeCtxes ↔ if d = c then linked' else d ∈ s.mgr.teeCtxes)
    (hnodup : m'.teeCtxes.Nodup) : Good φ s t pc (.ok (m', [.openParams x a])) := by
  refine h.good_ctx ht (h.ctx_lt ht hr hk) (by rw [hcr]; rfl) (.loaded hlinked) rfl (.inr hcr)
    (by rw [hm]) hlink hnodup (by rw [hr, hin]; rfl) ?_ (by simp [Pc.cancels])
  simp only [List.mem_singleton, forall_eq]
  rintro b r ⟨⟩
  exact ⟨hr, fun _ => by simp [Pc.Knows, hk]⟩

theorem Inv.good_initStmm : (Pc.initStmm x a c).Steps φ s t := by
  intro sdp i fs ht
  obtain ⟨hk, hkind⟩ : (s.mgr.sess a).ctx = some c ∧ (s.mgr.ctx c).kind = .stmm := h.knows ht rfl
  have hload : 0 < (ctxHasOf s.mgr s.ctxRoles c).loads := by
    have hmem : (c, CtxRole.loads) ∈ s.ctxRoles t := mem_ctxRoles ht rfl
    have hle := le_total (f := held (fun r => if r = CtxRole.loads then 1 else 0) c) hmem
    simp only [held, if_true] at hle
    exact hle
  have hnot : c ∉ s.mgr.teeCtxes := fun hmem => by
    have hu := ((h.ctxs.ok c (h.ctx_lt ht rfl hk)).loads hload).2.2.2.1.1 hmem
    rw [hkind] at hu
    cases hu
  simp only [Pc.step]
  split
  · exact h.good_loaded True ht rfl rfl rfl hk (fun _ => trivial) rfl mem_append_iff_ite
      (h.ctxs.nodup.append (List.nodup_singleton _) (by simpa using hnot))
  · exact h.good_unload (k := 0) ht rfl rfl rfl hk (Nat.zero_le _)
      (by simp [Manager.modCtx, Manager.modSess, List.erase_of_not_mem hnot])
  · exact h.good_next ht rfl rfl fun _ _ _ hk => hk

theorem Inv.good_initUser : (Pc.initUser x a c).Steps φ s t := by
  intro sdp i fs ht
  obtain ⟨hk, hkind⟩ : (s.mgr.sess a).ctx = some c ∧ (s.mgr.ctx c).kind = .user := h.knows ht rfl
  simp only [Pc.step]
  split
  · exact h.good_loaded (c ∈ s.mgr.teeCtxes) ht rfl rfl rfl hk (fun hmem => hmem) rfl
      mem_iff_ite h.ctxs.nodup
  · exact h.good_unload (k := 1) ht rfl rfl rfl hk le_rfl
      (by simp [Manager.unlinkCtx, Manager.modCtx, Manager.modSess])
  · exact h.good_next ht rfl rfl fun _ _ _ hk => hk

theorem Inv.good_initUndo {e : TeeError} : (Pc.initUndo a e).Steps φ s t := by
  intro sdp i fs ht
  obtain ⟨ha, hf⟩ := h.live ht rfl
  have hk : (s.mgr.sess a).ctx = none := h.knows ht rfl
  simp only [Pc.step, useSession_eq hf]
  exact h.good_move rfl ha hf .undo (h.settles a ha) rfl
    (by rw [Function.update_eq_self]; rfl) rfl (by simp [Pc.Knows, hk]) (by simp [Pc.cancels])

theorem Inv.good_initFree {e : TeeError} : (Pc.initFree a e).Steps φ s t := by
  intro sdp i fs ht
  obtain ⟨ha, hf⟩ := h.live ht rfl
  have hk : (s.mgr.sess a).ctx = none := h.knows ht rfl
  simp only [Pc.step, useSession_eq hf]
  refine ⟨.change a _ _ none ha hf rfl (.free (.inr rfl)) (h.settles a ha) rfl rfl rfl rfl,
    .same (fun _ => .refl) (fun _ _ => rfl) rfl rfl (fun d => ?_)
      (h.sess_ctx_lt rfl rfl le_rfl fun c hc => h.ctxs.sess a ha c hc) rfl,
    .of_ctx_eq rfl rfl rfl, .inl rfl, by simp, by simp⟩
  exact att_eq ha rfl rfl ((attached_of_none hk).trans (attached_of_none (by exact hk)).symm)

/-! ## `tee_ta_open_session` -/

theorem Inv.good_openParams : (Pc.openParams x a).Steps φ s t := by
  intro sdp i fs ht
  obtain ⟨ha, hf⟩ := h.live ht rfl
  have hk : (s.mgr.sess a).ctx.isSome := h.knows ht rfl
  simp only [Pc.step, useSession_eq hf, Bind.bind, Except.bind]
  split_ifs
  · exact h.good_move rfl ha hf .leak ⟨fun _ => hk, (h.settles a ha).2⟩ rfl rfl rfl (by simp)
      (by simp)
  · split
    · rename_i hnone
      simp [hnone] at hk
    · rename_i hctx
      refine h.good_next ht rfl rfl ?_
      rintro _ _ ⟨⟩ -
      exact hctx

theorem Inv.good_enter {rc : Bool} (ht : s.threads t = pc :: fs)
    (hb : trySetBusy s.mgr t c = .done (rc, m')) (hc : c < s.mgr.nextCtx) (hpc : pc.inside = none)
    (hin : [pc'].filterMap Pc.inside = if rc then [c] else []) (hp : pc.Replaced φ s.mgr pc') :
    Good φ s t pc (.ok (m', [pc'])) := by
  obtain ⟨busy, l, htry, hm⟩ := trySetBusy_eq hb
  subst hm
  have halike : (s.mgr.ctx c).Alike { s.mgr.ctx c with busy := busy } := ⟨rfl, fun hp => hp⟩
  exact h.good_alike ht hc halike rfl (.enter c rc busy l hpc htry rfl rfl hin) hp

theorem Inv.good_openTry (ht : s.threads t = .openTry x a c :: fs)
    (hφ : φ → (Pc.openTry x a c).opensOk s.mgr t i = true) :
    Good φ s t (.openTry x a c) (Pc.step sdp s.mgr t i (.openTry x a c)) := by
  have hctx : (s.mgr.sess a).ctx = some c := h.knows ht rfl
  have hc := h.ctx_lt ht rfl hctx
  simp only [Pc.step]
  split
  · exact h.good_next ht rfl rfl fun _ _ _ hk => hk
  · trivial
  · rename_i hb
    exact h.good_enter ht hb hc rfl rfl ⟨rfl, rfl, rfl, fun _ _ _ _ hk => hk⟩
  · rename_i hb
    refine h.good_enter ht hb hc rfl rfl ⟨rfl, rfl, rfl, ?_⟩
    rintro _ _ ⟨⟩ p -
    refine ⟨by simp [hctx], fun hφ' => ?_⟩
    have hok := hφ hφ'
    simp [Pc.opensOk, hb] at hok

theorem Inv.good_openEnter : (Pc.openEnter x a c).Steps φ s t := by
  intro sdp i fs ht
  obtain ⟨ha, hf⟩ := h.live ht rfl
  have hk : (s.mgr.sess a).ctx = some c := h.knows ht rfl
  simp only [Pc.step, useSession_eq hf, Bind.bind, Except.bind]
  split_ifs with hp
  · refine h.good_next ht rfl rfl ?_
    rintro _ _ ⟨⟩ -
    exact ⟨hk, .inr hp⟩
  · have hmv : (s.mgr.sess a).Move t (hasOf s.roles a) (some .opener)
        { s.mgr.sess a with clntId := x.clntId } (some .opener) := .setup
    exact h.good_move rfl ha hf hmv (h.settles a ha) rfl rfl rfl (by simp [Pc.Knows, hk])
      (by simp [Pc.cancels])

omit h in
theorem alike_markPanicked (m : Manager n) (c : ℕ) (panics : Bool) (d : ℕ) :
    (m.ctx d).Alike ((markPanicked m c panics).ctx d) := by
  simp only [markPanicked, Manager.modCtx, Function.update_apply]
  split_ifs with hd
  · subst hd
    exact ⟨rfl, fun hp => by simp [hp]⟩
  · exact .refl

theorem Inv.good_openTa (ht : s.threads t = .openTa a c :: fs)
    (hφ : φ → (Pc.openTa a c).opensOk s.mgr t i = true) :
    Good φ s t (.openTa a c) (Pc.step sdp s.mgr t i (.openTa a c)) := by
  obtain ⟨ha, hf⟩ := h.live ht rfl
  have hk : (s.mgr.sess a).ctx = some c := h.knows ht rfl
  have hc := h.ctx_lt ht rfl hk
  simp only [Pc.step, useSession_eq hf, Bind.bind, Except.bind]
  split
  · rename_i res panics
    have hmv : (s.mgr.sess a).Move t (hasOf s.roles a) (some .opener)
        { s.mgr.sess a with
          opened := res.isOk && !(panics && decide ((s.mgr.ctx c).kind = .user)) }
        (some .opener) := .setup
    refine ⟨.change a _ _ _ ha hf rfl hmv (h.opener_settles (mem_roles ht rfl) rfl) rfl rfl rfl rfl,
      .same (alike_markPanicked s.mgr c panics) (fun d hd => ?_) rfl rfl (fun d => ?_)
        (h.sess_ctx_lt rfl rfl le_rfl fun c hc => h.ctxs.sess a ha c hc) rfl,
      .of_update (c := c) rfl rfl rfl (.inl rfl) rfl, .inl rfl, ?_, by simp [Pc.cancels]⟩
    · simp only [markPanicked, Manager.modSess, Manager.modCtx]
      rw [Function.update_of_ne (by omega)]
    · exact att_eq ha rfl rfl (attached_congr rfl rfl)
    · simp only [List.mem_singleton, forall_eq]
      rintro _ _ ⟨⟩
      refine (?_ : Pc.Knows φ _ _ (.openLeft a c res))
      simp only [Manager.modSess, markPanicked, Manager.modCtx, Function.update_self, Pc.Knows, hk,
        true_and]
      cases res with
      | ok _ =>
        cases hp : panics && decide ((s.mgr.ctx c).kind = .user)
          <;> simp [Except.isOk, Except.toBool]
      | error e =>
        intro hφ'
        have hok := hφ hφ'
        simp only [Pc.opensOk] at hok
        simp [hok]
  · exact h.good_next ht rfl rfl fun _ _ _ hk => hk

theorem Inv.good_openLeft : (Pc.openLeft a c res).Steps φ s t := by
  intro sdp i fs ht
  simp only [Pc.step]
  split_ifs with hp
  · refine h.good_next ht rfl rfl ?_
    rintro _ _ ⟨⟩ ⟨hctx, -⟩
    exact ⟨hctx, hp⟩
  · refine h.good_next ht rfl rfl ?_
    rintro _ _ ⟨⟩ ⟨hctx, hres⟩
    refine ⟨hctx, ?_⟩
    split_ifs at hres ⊢ with hok
    · exact hres.resolve_right hp
    · exact hres

theorem Inv.good_release (ht : s.threads t = pc :: fs) (hr : pc.role = some (a, r))
    (hctx : (s.mgr.sess a).ctx = some c) (hcr : pc.ctxRole = none) (hpc : pc.cancels = false)
    (hshape : pc'.shape = pc.shape)
    (hk : pc.Knows φ s.mgr.ctx (s.mgr.sess a) → pc'.Knows φ s.mgr.ctx (s.mgr.sess a)) :
    Good φ s t pc (.ok (releaseTaCtx s.mgr c pc')) := by
  have hc := h.ctx_lt ht hr hctx
  unfold releaseTaCtx
  split_ifs with hrel
  · refine h.good_next ht rfl hshape fun b r' hb hkn => ?_
    cases hr.symm.trans hb
    exact hk hkn
  · obtain ⟨ha, hf⟩ := h.live ht hr
    have hrole : pc'.role = pc.role := congrArg (·.1) hshape
    have hcr' : pc'.ctxRole = pc.ctxRole := congrArg (·.2.1) hshape
    have hin : pc'.inside = pc.inside := congrArg (·.2.2.1) hshape
    have hcanc : pc'.cancels = pc.cancels := congrArg (·.2.2.2) hshape
    have hload := h.not_loading ht hr hctx (by simp [hcr])
    have hmv : (s.mgr.ctx c).Move (c ∈ s.mgr.teeCtxes) _ _ _ _ _ :=
      .release hload (att_pos ha hf hctx) (by simpa using hrel)
    refine h.good_ctx ht hc (by rw [hcr]; rfl) hmv rfl (.inl rfl)
      (by simp [Manager.unlinkCtx, Manager.modCtx]) (mem_erase_iff_ite h.ctxs.nodup)
      (h.ctxs.nodup.erase c) ?_ ?_ ?_
    · change (List.filterMap Pc.role [pc'],
        (c, CtxRole.releases) :: List.filterMap Pc.ctxRole [pc'],
        List.filterMap Pc.inside [pc']) = _
      cases hi : pc.inside <;> simp [hrole, hr, hcr', hcr, hin, hi, roleAt]
    · simp only [List.mem_cons, List.not_mem_nil, or_false, forall_eq_or_imp, forall_eq]
      refine ⟨by simp [Pc.role], fun b r' hb => ⟨hrole ▸ hb, fun hkn => ?_⟩⟩
      rw [hrole, hr] at hb
      cases hb
      exact hk hkn
    · simp only [List.mem_cons, List.not_mem_nil, or_false, forall_eq_or_imp, forall_eq]
      exact ⟨rfl, hcanc.trans hpc⟩

theorem Inv.good_clear (ht : s.threads t = pc :: fs) (hc : c < s.mgr.nextCtx)
    (hpc : pc.inside = some c) (hin : pc'.inside = none) (hp : pc.Replaced φ s.mgr pc') :
    Good φ s t pc (do let m ← clearBusy s.mgr t c; .ok (m, [pc'])) := by
  cases hb : clearBusy s.mgr t c with
  | error e =>
    rw [clearBusy_error hb]
    trivial
  | ok m' =>
    obtain ⟨busy, l, hclear, rfl⟩ := clearBusy_eq hb
    have halike : (s.mgr.ctx c).Alike { s.mgr.ctx c with busy := busy } := ⟨rfl, fun hp => hp⟩
    exact h.good_alike ht hc halike rfl (.leave c busy l hpc hclear rfl rfl (by simp [hin])) hp

theorem Inv.good_openPut : (Pc.openPut a res).Steps φ s t := by
  intro sdp i fs ht
  obtain ⟨ha, hf⟩ := h.live ht rfl
  obtain ⟨hk, hres⟩ : (s.mgr.sess a).ctx.isSome ∧ if res.isOk then (s.mgr.sess a).opened = true
    else φ → Dead s.mgr.ctx (s.mgr.sess a) := h.knows ht rfl
  have hl := (h.opener (mem_roles ht rfl)).2
  simp only [Pc.step, useSession_eq hf, Bind.bind, Except.bind, teeTaPutSession_eq hf]
  by_cases hz : (s.mgr.sess a).refCount = 0
  · simp only [hz, if_true]
    trivial
  · simp only [hz, if_false]
    cases res with
    | ok _ =>
      exact h.good_move rfl ha hf (.put (.inl rfl)) (h.settles a ha) rfl
        (by simp [Manager.modSess, hl, Removes, Role.has, Role.offs]) rfl
        (by simpa [Pc.Knows] using fun _ => ⟨hk, hres⟩) (by simp [Pc.cancels])
    | error e =>
      refine h.good_move rfl ha hf (.put (.inr rfl)) (h.settles a ha) rfl
        (by simp [Manager.modSess, hl, Removes, Role.has, Role.offs]) rfl ?_ (by simp [Pc.cancels])
      simp only [List.mem_cons, List.not_mem_nil, or_false, forall_eq_or_imp, forall_eq]
      refine ⟨fun _ => ⟨hk, rfl, .inl rfl, fun hφ => .inr ?_⟩, by simp [Pc.role]⟩
      exact (hres hφ).later ⟨rfl, rfl, rfl, rfl, fun h => h, fun h => h⟩ fun _ _ => .refl

theorem Inv.good_openDone : (Pc.openDone a).Steps φ s t := by
  intro sdp i fs ht
  obtain ⟨ha, hf⟩ := h.live ht rfl
  obtain ⟨hk, ho⟩ : (s.mgr.sess a).ctx.isSome ∧ (s.mgr.sess a).opened = true := h.knows ht rfl
  simp only [Pc.step, useSession_eq hf, Bind.bind, Except.bind]
  exact h.good_move rfl ha hf .done ⟨fun _ => hk, fun _ => ho⟩ rfl rfl rfl (by simp) (by simp)

/-! ## `tee_ta_invoke_command` -/

theorem Inv.good_setBusy (ht : s.threads t = pc :: fs) (hr : pc.role = some (a, r))
    (hctx : (s.mgr.sess a).ctx = some c) (hsets : pc.sets = some c) (hpc : pc.inside = none)
    (hin : pc'.inside = some c) (hp : pc.Replaced φ s.mgr pc') :
    Good φ s t pc (setBusy s.mgr t c pc pc') := by
  have hc := h.ctx_lt ht hr hctx
  unfold setBusy
  split
  · exact h.good_next ht rfl rfl fun _ _ _ hk => hk
  · trivial
  · rename_i hb
    exact h.good_enter ht hb hc hpc (by simp [hin]) hp
  · rename_i hb
    obtain ⟨busy, l, htry, -⟩ := trySetBusy_eq hb
    exact ⟨c, busy, l, hsets, htry⟩

theorem Inv.good_invoke
    (hset : ∀ a ∈ teeTaFindSession s.mgr o id, (s.mgr.sess a).settled = true)
    (hready : φ → ∀ a ∈ teeTaFindSession s.mgr o id, (s.mgr.sess a).ready = true) :
    Good φ s t (.invoke o id clnt params) (Pc.step sdp s.mgr t i (.invoke o id clnt params)) := by
  simp only [Pc.step]
  obtain ⟨he, -⟩ | ⟨a, hfind, hcases⟩ := teeTaGetSession_cases s.mgr t o id true
  · rw [he]
    exact h.good_end rfl rfl
  · obtain ⟨ha, hf, -, hoff⟩ := h.listed (find_mem hfind).1
    obtain ⟨hex, -⟩ | he | ⟨-, hl, he⟩ | ⟨-, he⟩ := hcases
    · cases hex
    · rw [he]
      trivial
    · rw [he]
      exact h.good_move rfl ha hf (.get (hset a hfind) hoff hl) (h.settles a ha) rfl rfl rfl
        (by simpa [Pc.Knows] using fun _ hφ => hready hφ a hfind) (by simp [Pc.cancels])
    · rw [he]
      exact h.good_move rfl ha hf (.getWait (hset a hfind) hoff) (h.settles a ha) rfl rfl rfl
        (by simpa [Pc.Knows] using fun _ hφ => hready hφ a hfind) (by simp [Pc.cancels])

theorem Inv.good_invokeWait : (Pc.invokeWait a clnt params).Steps φ s t := by
  intro sdp i fs ht
  obtain ⟨ha, hf⟩ := h.live ht rfl
  have hk : φ → (s.mgr.sess a).ready = true := h.knows ht rfl
  simp only [Pc.step, waitSession, useSession_eq hf, decSessionRefCount, Bind.bind, Except.bind]
  split_ifs with hu hz hl
  · trivial
  · exact h.good_move rfl ha hf .giveUp (h.settles a ha) rfl rfl rfl (by simp) (by simp)
  · exact h.good_move rfl ha hf (.lock hl) (h.settles a ha) rfl rfl rfl
      (by simpa [Pc.Knows] using fun _ => hk) (by simp [Pc.cancels])
  · exact h.good_next ht rfl rfl fun _ _ _ hk => hk

theorem Inv.good_invokeCheck : (Pc.invokeCheck a clnt params).Steps φ s t := by
  intro sdp i fs ht
  obtain ⟨ha, hf⟩ := h.live ht rfl
  have hctx := (h.settles a ha).1 (h.user_settled (mem_roles ht rfl) rfl)
  simp only [Pc.step, useSession_eq hf, Bind.bind, Except.bind]
  split
  · exact h.good_next ht rfl rfl fun _ _ _ _ => trivial
  · split_ifs
    · exact h.good_next ht rfl rfl fun _ _ _ _ => trivial
    · split
      · rename_i hnone
        simp [hnone] at hctx
      · rename_i hsome
        refine h.good_next ht rfl rfl ?_
        rintro _ _ ⟨⟩ hk
        exact ⟨hsome, hk⟩

theorem Inv.good_deliver (ht : s.threads t = pc :: fs) (hshape : pc'.shape = pc.shape)
    (hcanc : pc'.cancels = false) (ho : φ → (s.mgr.sess a).opened = true)
    (hk : ∀ a r, pc.role = some (a, r) → pc.Knows φ s.mgr.ctx (s.mgr.sess a) →
      pc'.Knows φ s.mgr.ctx (s.mgr.sess a)) :
    Good φ s t pc (.ok (s.mgr.deliver a, [pc'])) := by
  have hrole : pc'.role = pc.role := congrArg (·.1) hshape
  obtain ⟨hr, hcr, hin⟩ : _ ∧ _ ∧ _ := by simpa [shapes] using shapes_singleton hshape
  refine ⟨.same rfl rfl rfl hr, .same (fun _ => .refl) (fun _ _ => rfl) rfl rfl (fun _ => rfl)
    h.ctxs.sess hcr, .of_ctx_eq rfl rfl hin, .inr ⟨a, rfl, ho⟩, ?_, by simp [hcanc]⟩
  simp only [List.mem_singleton, forall_eq]
  exact fun b r hb => hk b r (hrole ▸ hb) (h.knows ht (hrole ▸ hb))

theorem Inv.good_invokeEnter : (Pc.invokeEnter a c).Steps φ s t := by
  intro sdp i fs ht
  obtain ⟨ha, hf⟩ := h.live ht rfl
  obtain ⟨-, hready⟩ : (s.mgr.sess a).ctx = some c ∧ (φ → (s.mgr.sess a).ready = true) :=
    h.knows ht rfl
  simp only [Pc.step, useSession_eq hf, Bind.bind, Except.bind]
  split_ifs
  · exact h.good_next ht rfl rfl fun _ _ _ hk => hk.1
  · exact h.good_deliver ht rfl rfl (fun hφ => (h.settles a ha).2 (hready hφ)) fun _ _ _ hk => hk.1

theorem Inv.good_return {panics : Bool} (ht : s.threads t = pc :: fs) (hr : pc.role = some (a, r))
    (hctx : (s.mgr.sess a).ctx = some c) (hshape : pc'.shape = pc.shape)
    (hcanc : pc'.cancels = false) (hk : ∀ p, pc'.Knows φ p (s.mgr.sess a)) :
    Good φ s t pc (.ok (markPanicked s.mgr c panics, [pc'])) := by
  have halike := alike_markPanicked s.mgr c panics c
  refine h.good_alike ht (h.ctx_lt ht hr hctx) halike ?_ ?_
    ⟨congrArg (·.1) hshape, congrArg (·.2.1) hshape, hcanc, fun b r' hb p _ => ?_⟩
  · simp [markPanicked, Manager.modCtx]
  · refine .of_update (c := c) rfl rfl rfl (.inl rfl) ?_
    obtain ⟨-, -, hin⟩ : _ ∧ _ ∧ _ := by simpa [shapes] using shapes_singleton hshape
    exact hin
  · cases hr.symm.trans hb
    exact hk _

theorem Inv.good_invokeTa : (Pc.invokeTa a c).Steps φ s t := by
  intro sdp i fs ht
  obtain ⟨ha, hf⟩ := h.live ht rfl
  have hk : (s.mgr.sess a).ctx = some c := h.knows ht rfl
  simp only [Pc.step, useSession_eq hf, Bind.bind, Except.bind]
  split
  · exact h.good_return ht rfl hk rfl rfl fun _ => hk
  · exact h.good_next ht rfl rfl fun _ _ _ hk => hk

theorem Inv.good_invokeLeft : (Pc.invokeLeft a c res).Steps φ s t := by
  intro sdp i fs ht
  simp only [Pc.step]
  split_ifs
  · exact h.good_next ht rfl rfl fun _ _ _ hk => hk
  · exact h.good_next ht rfl rfl fun _ _ _ hk => hk

theorem Inv.good_drop {call : Call} (ht : s.threads t = pc :: fs)
    (hr : pc.role = some (a, .user)) (hcr : pc.ctxRole = none) (hin : pc.inside = none) :
    Good φ s t pc (do let m ← teeTaPutSession s.mgr t a; .ok (m.log t call res, [])) := by
  obtain ⟨ha, hf⟩ := h.live ht hr
  have hl := h.reg.lock_eq (mem_roles ht hr) rfl
  rw [teeTaPutSession_eq hf]
  split_ifs
  · trivial
  · exact h.good_move (by rw [hr]; rfl) ha hf (.drop hl) (h.settles a ha) rfl
      (by simp [Manager.modSess, Manager.log, hl, Removes, Role.has, Role.offs])
      (by rw [hcr, hin]; rfl) (by simp) (by simp)

/-! ## `tee_ta_close_session` -/

theorem Inv.good_find {rest : List Pc} (hmem : a ∈ s.mgr.lists o) (hr : pc.role = none)
    (hset : (s.mgr.sess a).settled = true) (hcl : s.NotClosing a)
    (hready : φ → (s.mgr.sess a).ready = true)
    (hrest : ∀ pc' ∈ rest, pc'.role = none ∧ pc'.cancels = false)
    (hcr : rest.filterMap Pc.ctxRole = pc.ctxRole.toList)
    (hin : rest.filterMap Pc.inside = pc.inside.toList) :
    Good φ s t pc (.ok (s.mgr, .closeId a o clnt :: rest)) := by
  obtain ⟨ha, hf, ho, -⟩ := h.listed hmem
  have hz : (hasOf s.roles a).closes = 0 := total_eq_zero.2 fun u p hp => by
    unfold held
    split_ifs with hpa
    · exact hcl u p hp hpa
    · rfl
  have hroles : rest.filterMap Pc.role = [] :=
    List.filterMap_eq_nil_iff.2 fun pc' hp => (hrest pc' hp).1
  refine h.good_move (by rw [hr]; rfl) ha hf (.find hset hz) (h.settles a ha) rfl
    (by rw [Function.update_eq_self]; rfl) ?_ ?_ ?_
  · change ((a, Role.finder) :: rest.filterMap Pc.role, rest.filterMap Pc.ctxRole,
      rest.filterMap Pc.inside) = _
    rw [hroles, hcr, hin]
    rfl
  · intro pc' hp hsome
    rcases List.mem_cons.1 hp with rfl | hp
    · exact ⟨(h.settles a ha).1 hset, ho.symm, .inr hset, fun hφ => .inl (hready hφ)⟩
    · simp [(hrest pc' hp).1] at hsome
  · intro pc' hp hcanc
    rcases List.mem_cons.1 hp with rfl | hp
    · cases hcanc
    · simp [(hrest pc' hp).2] at hcanc

theorem Inv.good_close
    (hg : ∀ a ∈ teeTaFindSession s.mgr o id, (s.mgr.sess a).settled = true ∧ s.NotClosing a)
    (hready : φ → ∀ a ∈ teeTaFindSession s.mgr o id, (s.mgr.sess a).ready = true) :
    Good φ s t (.close o id clnt) (Pc.step sdp s.mgr t i (.close o id clnt)) := by
  simp only [Pc.step]
  split
  · exact h.good_end rfl rfl
  · rename_i a hfind
    obtain ⟨hset, hcl⟩ := hg a hfind
    exact h.good_find (find_mem hfind).1 rfl hset hcl (fun hφ => hready hφ a hfind)
      (by simp) rfl rfl

theorem Inv.good_closeId : (Pc.closeId a o clnt).Steps φ s t := by
  intro sdp i fs ht
  obtain ⟨ha, hf⟩ := h.live ht rfl
  simp only [Pc.step, useSession_eq hf, Bind.bind, Except.bind]
  refine h.good_next ht rfl rfl ?_
  rintro _ _ ⟨⟩ ⟨hctx, ho, hclnt, hφ⟩
  exact ⟨hctx, ho, rfl, hclnt, hφ⟩

theorem Inv.good_closeGet : (Pc.closeGet a o id clnt).Steps φ s t := by
  intro sdp i fs ht
  obtain ⟨ha, hf⟩ := h.live ht rfl
  obtain ⟨hctx, ho, hid, hclnt, hφ⟩ : (s.mgr.sess a).ctx.isSome ∧ o = (s.mgr.sess a).owner
    ∧ id = (s.mgr.sess a).id ∧ (clnt = .kern ∨ (s.mgr.sess a).settled = true)
    ∧ (φ → (s.mgr.sess a).ready = true ∨ Dead s.mgr.ctx (s.mgr.sess a)) := h.knows ht rfl
  obtain ⟨hmem, hun⟩ := h.closer_finds ht rfl (.inl rfl)
  have hfind : teeTaFindSession s.mgr o id = some a := by
    cases hb : teeTaFindSession s.mgr o id with
    | none =>
      rw [teeTaFindSession, List.find?_eq_none] at hb
      exact absurd hid.symm (by simpa using hb a (ho ▸ hmem))
    | some b =>
      obtain ⟨hbm, hbid⟩ := find_mem hb
      rw [h.reg.ids o b hbm a (ho ▸ hmem) (hbid.trans hid)]
  simp only [Pc.step]
  obtain ⟨-, hunl⟩ | ⟨b, hb, hcases⟩ := teeTaGetSession_cases s.mgr t o id true
  · exact absurd (hunl a hfind) (by simp [hun])
  · cases hfind.symm.trans hb
    obtain ⟨hex, -⟩ | he | ⟨-, hl, he⟩ | ⟨-, he⟩ := hcases
    · cases hex
    · rw [he]
      trivial
    · rw [he]
      exact h.good_move rfl ha hf (.getClose hl) (h.settles a ha) rfl rfl rfl
        (by simpa [Pc.Knows] using fun _ => ⟨hctx, hclnt, hφ⟩) (by simp [Pc.cancels])
    · rw [he]
      exact h.good_move rfl ha hf .getCloseWait (h.settles a ha) rfl rfl rfl
        (by simpa [Pc.Knows] using fun _ => ⟨hctx, hclnt, hφ⟩) (by simp [Pc.cancels])

theorem Inv.good_closeWait : (Pc.closeWait a clnt).Steps φ s t := by
  intro sdp i fs ht
  obtain ⟨ha, hf⟩ := h.live ht rfl
  obtain ⟨hctx, hclnt, hφ⟩ : (s.mgr.sess a).ctx.isSome
    ∧ (clnt = .kern ∨ (s.mgr.sess a).settled = true)
    ∧ (φ → (s.mgr.sess a).ready = true ∨ Dead s.mgr.ctx (s.mgr.sess a)) := h.knows ht rfl
  have hun := (h.closer_finds ht rfl (.inr (.inr rfl))).2
  simp only [Pc.step, waitSession, useSession_eq hf, hun, Bind.bind, Except.bind]
  by_cases hl : (s.mgr.sess a).lockThread = none
  · simp only [hl, Bool.false_eq_true, if_false, if_true]
    exact h.good_move rfl ha hf (.lockClose hl) (h.settles a ha) rfl rfl rfl
      (by simpa [Pc.Knows] using fun _ => ⟨hctx, hclnt, hφ⟩) (by simp [Pc.cancels])
  · simp only [hl, Bool.false_eq_true, if_false]
    exact h.good_next ht rfl rfl fun _ _ _ hk => hk

theorem Inv.good_closeCheck : (Pc.closeCheck a clnt).Steps φ s t := by
  intro sdp i fs ht
  obtain ⟨ha, hf⟩ := h.live ht rfl
  obtain ⟨hctx, hclnt, hφ⟩ : (s.mgr.sess a).ctx.isSome
    ∧ (clnt = .kern ∨ (s.mgr.sess a).settled = true)
    ∧ (φ → (s.mgr.sess a).ready = true ∨ Dead s.mgr.ctx (s.mgr.sess a)) := h.knows ht rfl
  simp only [Pc.step, useSession_eq hf, Bind.bind, Except.bind]
  split_ifs with hcheck
  · have hset : (s.mgr.sess a).settled = true := by
      rcases hclnt with rfl | hset
      · simp [checkClient] at hcheck
      · exact hset
    exact h.good_move rfl ha hf (.deny hset) (h.settles a ha) rfl
      (by rw [Function.update_eq_self]; rfl) rfl (by simp [Pc.Knows]) (by simp [Pc.cancels])
  · obtain ⟨c, hc⟩ := Option.isSome_iff_exists.1 hctx
    rw [hc]
    simp only
    split_ifs with hp
    · refine h.good_next ht rfl rfl ?_
      rintro _ _ ⟨⟩ -
      exact ⟨hctx, hc.symm⟩
    · refine h.good_next ht rfl rfl ?_
      rintro _ _ ⟨⟩ -
      refine ⟨hc, fun hφ' => ?_⟩
      obtain hready | ⟨d, hd, hdead⟩ := hφ hφ'
      · exact (h.settles a ha).2 hready
      · cases hc.symm.trans hd
        exact absurd hdead hp

theorem Inv.good_closeEnter : (Pc.closeEnter a c).Steps φ s t := by
  intro sdp i fs ht
  obtain ⟨ha, hf⟩ := h.live ht rfl
  obtain ⟨hctx, ho⟩ : (s.mgr.sess a).ctx = some c ∧ (φ → (s.mgr.sess a).opened = true) :=
    h.knows ht rfl
  simp only [Pc.step, useSession_eq hf, Bind.bind, Except.bind]
  split_ifs
  · refine h.good_next ht rfl rfl ?_
    rintro _ _ ⟨⟩ -
    simp [Pc.Knows, hctx]
  · exact h.good_deliver ht rfl rfl ho fun _ _ _ hk => hk.1

theorem Inv.good_closeTa : (Pc.closeTa a c).Steps φ s t := by
  intro sdp i fs ht
  obtain ⟨ha, hf⟩ := h.live ht rfl
  have hk : (s.mgr.sess a).ctx = some c := h.knows ht rfl
  simp only [Pc.step, useSession_eq hf, Bind.bind, Except.bind]
  split
  · exact h.good_return ht rfl hk rfl rfl fun _ => by simp [Pc.Knows, hk]
  · exact h.good_next ht rfl rfl fun _ _ _ hk => hk

theorem Inv.good_closeUnlink {o : Option (ℕ × Bool)} : (Pc.closeUnlink a o).Steps φ s t := by
  intro sdp i fs ht
  obtain ⟨ha, hf⟩ := h.live ht rfl
  have hk : (s.mgr.sess a).ctx.isSome ∧ o.map Prod.fst = (s.mgr.sess a).ctx := h.knows ht rfl
  simp only [Pc.step, useSession_eq hf, Bind.bind, Except.bind]
  split_ifs
  · trivial
  · unfold unlinkSession
    split_ifs with hone
    · refine h.good_move rfl ha hf .mark (h.settles a ha) rfl rfl ?_
        (by simpa [Pc.Knows] using fun _ => hk) (by simp [Pc.cancels])
      rcases o with _ | ⟨c, _ | _⟩ <;> rfl
    · have hone : (s.mgr.sess a).refCount = 1 := by simpa [Manager.modSess] using hone
      refine h.good_move rfl ha hf (.markRemove hone) (h.settles a ha) rfl
        (by simp [Removes, Role.has, Role.offs, Manager.unlist, Manager.modSess]) ?_
        (by simpa [Pc.Knows] using fun _ => hk) (by simp [Pc.cancels])
      rcases o with _ | ⟨c, _ | _⟩ <;> rfl

theorem Inv.good_closeUnlinkWait {o : Option (ℕ × Bool)} :
    (Pc.closeUnlinkWait a o).Steps φ s t := by
  intro sdp i fs ht
  obtain ⟨ha, hf⟩ := h.live ht rfl
  have hk : (s.mgr.sess a).ctx.isSome ∧ o.map Prod.fst = (s.mgr.sess a).ctx := h.knows ht rfl
  simp only [Pc.step, useSession_eq hf, Bind.bind, Except.bind]
  unfold unlinkSession
  split_ifs with hone
  · exact h.good_next ht rfl rfl fun _ _ _ hk => hk
  · refine h.good_move rfl ha hf (.remove (by simpa using hone)) (h.settles a ha) rfl
      (by rw [Function.update_eq_self]; rfl) ?_ (by simpa [Pc.Knows] using fun _ => hk)
      (by simp [Pc.cancels])
    rcases o with _ | ⟨c, _ | _⟩ <;> rfl

theorem Inv.good_free {b : Bool} (ht : s.threads t = .closeFree a (some (c, b)) :: fs)
    (hctx : (s.mgr.sess a).ctx = some c) (hcr : pc'.ctxRole = some (c, .owes))
    (hrole : pc'.role = none) (hin : pc'.inside = (Pc.closeFree a (some (c, b))).inside)
    (hcanc : pc'.cancels = false) :
    Good φ s t (.closeFree a (some (c, b)))
      (.ok (s.mgr.modSess a fun s => { s with freed := true }, [pc'])) := by
  obtain ⟨ha, hf⟩ := h.live ht rfl
  refine ⟨.change a _ _ none ha hf rfl (.free (.inl rfl)) (h.settles a ha) rfl rfl rfl
      (by simp [hrole, roleAt]),
    .change c 1 none _ (c ∈ s.mgr.teeCtxes) 0 (some .owes) (h.ctx_lt ht rfl hctx) rfl .free
      (Function.update_eq_self c _).symm rfl mem_iff_ite h.ctxs.nodup (fun d => ?_)
      (att_pos ha hf hctx) (h.sess_ctx_lt rfl rfl le_rfl fun c hc => h.ctxs.sess a ha c hc)
      (by simp [hcr, roleAt]),
    .of_ctx_eq rfl rfl ?_, .inl rfl, ?_, by simp [hcanc]⟩
  · have hsess : (s.mgr.modSess a fun s => { s with freed := true }).sess
        = Function.update s.mgr.sess a { s.mgr.sess a with freed := true } := rfl
    have hup := att_update (c := d) ha hsess rfl
    rw [attached_of_ctx hf hctx] at hup
    simpa [attached] using hup
  · cases hi : (Pc.closeFree a (some (c, b))).inside <;> simp [hin, hi]
  · simp only [List.mem_singleton, forall_eq]
    intro b r hb
    rw [hrole] at hb
    cases hb

theorem Inv.good_closeFree {o : Option (ℕ × Bool)} : (Pc.closeFree a o).Steps φ s t := by
  intro sdp i fs ht
  obtain ⟨ha, hf⟩ := h.live ht rfl
  obtain ⟨hsome, hctx⟩ : (s.mgr.sess a).ctx.isSome ∧ o.map Prod.fst = (s.mgr.sess a).ctx :=
    h.knows ht rfl
  simp only [Pc.step, useSession_eq hf, Bind.bind, Except.bind]
  rcases o with _ | ⟨c, _ | _⟩
  · simp [← hctx] at hsome
  · exact h.good_free ht hctx.symm rfl rfl rfl rfl
  · exact h.good_free ht hctx.symm rfl rfl rfl rfl

theorem Inv.good_closeDec : (Pc.closeDec c).Steps φ s t := by
  intro sdp i fs ht
  obtain ⟨hc, hload, hpos, hz⟩ := h.owing ht rfl
  have hlinked := (h.ctxs.ok c hc).of_linked
  simp only [Pc.step, putCtx]
  split_ifs with hnone hlast hrel
  · omega
  · have hone : (s.mgr.ctx c).refCount = 1 := by omega
    refine h.good_ctx ht hc rfl (.destroy hload hone) rfl (.inl rfl) ?_
      (fun d => ?_) h.ctxs.nodup rfl (by simp [Pc.role]) (by simp [Pc.cancels])
    · simp [Manager.modCtx, hone, hrel]
    · change d ∈ s.mgr.teeCtxes ↔ _
      split_ifs with hd
      · rw [hd]
        exact ⟨fun hmem => by simp [hlinked hmem] at hrel, False.elim⟩
      · rfl
  · have hone : (s.mgr.ctx c).refCount = 1 := by omega
    refine h.good_ctx ht hc rfl (.destroy hload hone) rfl (.inl rfl) ?_
      (mem_erase_iff_ite h.ctxs.nodup) (h.ctxs.nodup.erase c) rfl (by simp [Pc.role])
      (by simp [Pc.cancels])
    simp [Manager.modCtx, Manager.unlinkCtx, hone, hrel]
  · exact h.good_ctx ht hc rfl (.keep hload) rfl
      (.inl rfl) rfl mem_iff_ite h.ctxs.nodup rfl (by simp) (by simp)

theorem Inv.good_drain {destroy : Bool} (ht : s.threads t = .drain c destroy :: fs)
    (hg : ∀ a ∈ (s.mgr.lists (some c)).head?, (s.mgr.sess a).settled = true ∧ s.NotClosing a)
    (hready : φ → ∀ a ∈ (s.mgr.lists (some c)).head?, (s.mgr.sess a).ready = true) :
    Good φ s t (.drain c destroy) (Pc.step sdp s.mgr t i (.drain c destroy)) := by
  simp only [Pc.step]
  split
  · rename_i a l hl
    obtain ⟨hset, hcl⟩ := hg a (by simp [hl])
    refine h.good_find (by simp [hl]) rfl hset hcl (fun hφ => hready hφ a (by simp [hl]))
      (by simp [Pc.role, Pc.cancels]) ?_ rfl
    cases destroy <;> rfl
  · have hc : c < s.mgr.nextCtx := by
      cases destroy <;> exact h.ctxs.fresh t _ (mem_ctxRoles ht rfl)
    cases destroy with
    | true =>
      exact h.good_ctx ht hc rfl .destroyed rfl
        (.inl rfl) rfl mem_iff_ite h.ctxs.nodup rfl (by simp) (by simp)
    | false =>
      exact h.good_ctx ht hc rfl .released rfl (.inl rfl) rfl mem_iff_ite h.ctxs.nodup rfl (by simp)
        (by simp)

/-! ## `entry_cancel` -/

theorem Inv.good_cancel
    (hset : ∀ a ∈ teeTaFindSession s.mgr none id, (s.mgr.sess a).settled = true) :
    Good φ s t (.cancel id) (Pc.step sdp s.mgr t i (.cancel id)) := by
  simp only [Pc.step]
  obtain ⟨he, -⟩ | ⟨a, hfind, hcases⟩ := teeTaGetSession_cases s.mgr t none id false
  · rw [he]
    exact h.good_end rfl rfl
  · obtain ⟨ha, hf, -, hoff⟩ := h.listed (find_mem hfind).1
    obtain ⟨-, he⟩ | he | ⟨hex, -⟩ | ⟨hex, -⟩ := hcases
    · rw [he]
      exact h.good_move rfl ha hf (.getCancel (hset a hfind) hoff) (h.settles a ha) rfl rfl rfl
        (by simp [Pc.Knows]) (by simp [Pc.cancels])
    · rw [he]
      trivial
    · cases hex
    · cases hex

theorem Inv.good_cancelSet : (Pc.cancelSet a).Steps φ s t := by
  intro sdp i fs ht
  obtain ⟨ha, hf⟩ := h.live ht rfl
  simp only [Pc.step, useSession_eq hf, Bind.bind, Except.bind]
  split_ifs
  · exact h.good_next ht rfl rfl fun _ _ _ _ => trivial
  · exact h.good_next ht rfl rfl fun _ _ _ _ => trivial

theorem Inv.good_cancelPut : (Pc.cancelPut a res).Steps φ s t := by
  intro sdp i fs ht
  obtain ⟨ha, hf⟩ := h.live ht rfl
  have hl := h.canceller ht rfl
  simp only [Pc.step, teeTaPutSession_eq hf]
  split_ifs
  · trivial
  · exact h.good_move rfl ha hf .dropCancel (h.settles a ha) rfl
      (by simp [Manager.modSess, Manager.log, hl, Removes, Role.has, Role.offs]) rfl (by simp)
      (by simp)

/-! ## All frames -/

/-- A frame takes a good step if the sessions that it finds are settled. -/
theorem Inv.good_step (sdp : Bool) (i : Input) (ht : s.threads t = pc :: fs)
    (hg : ∀ p ∈ pc.finds s.mgr, (s.mgr.sess p.1).settled = true ∧ (p.2 = true → s.NotClosing p.1))
    (hφ : φ → (∀ p ∈ pc.finds s.mgr, (s.mgr.sess p.1).ready = true) ∧ pc.opensOk s.mgr t i = true) :
    Good φ s t pc (pc.step sdp s.mgr t i) := by
  have hfound : ∀ {o : Option ℕ} {b}, pc.finds s.mgr = o.map (·, b) → ∀ a ∈ o,
      (s.mgr.sess a).settled = true ∧ (b = true → s.NotClosing a) := by
    intro o b ho a ha
    exact hg (a, b) (by rw [ho, Option.mem_def.1 ha]; rfl)
  have hready : ∀ {o : Option ℕ} {b}, pc.finds s.mgr = o.map (·, b) → φ → ∀ a ∈ o,
      (s.mgr.sess a).ready = true := by
    intro o b ho hφ' a ha
    exact (hφ hφ').1 (a, b) (by rw [ho, Option.mem_def.1 ha]; rfl)
  have hclose : ∀ {o : Option ℕ}, pc.finds s.mgr = o.map (·, true) → ∀ a ∈ o,
      (s.mgr.sess a).settled = true ∧ s.NotClosing a :=
    fun ho a ha => ⟨(hfound ho a ha).1, (hfound ho a ha).2 rfl⟩
  cases pc with
  | init x => exact h.good_init ht
  | initWait x a => exact h.good_initWait ht
  | initLoad x a => exact h.good_initLoad ht
  | initStmm x a c => exact h.good_initStmm ht
  | initUser x a c => exact h.good_initUser ht
  | initUndo a e => exact h.good_initUndo ht
  | initFree a e => exact h.good_initFree ht
  | openParams x a => exact h.good_openParams ht
  | openTry x a c => exact h.good_openTry ht fun hφ' => (hφ hφ').2
  | openEnter x a c => exact h.good_openEnter ht
  | openTa a c => exact h.good_openTa ht fun hφ' => (hφ hφ').2
  | openLeft a c res => exact h.good_openLeft ht
  | openRelease a c =>
    have hk := h.knows ht rfl
    exact h.good_release ht rfl hk.1 rfl rfl rfl fun hk => ⟨hk.1, fun _ => hk.2⟩
  | openClear a c res =>
    have hk := h.knows ht rfl
    refine h.good_clear ht (h.ctx_lt ht rfl hk.1) rfl rfl ⟨rfl, rfl, rfl, ?_⟩
    rintro _ _ ⟨⟩ p ⟨hctx, hres⟩
    refine ⟨by simp [hctx], ?_⟩
    split_ifs at hres ⊢
    · exact hres
    · exact fun hφ' => ⟨c, hctx, hres hφ'⟩
  | openPut a res => exact h.good_openPut ht
  | openEnd e => exact h.good_end rfl rfl
  | openDone a => exact h.good_openDone ht
  | invoke o id clnt params =>
    exact h.good_invoke (fun a ha => (hfound rfl a ha).1) (hready rfl)
  | invokeWait a clnt params => exact h.good_invokeWait ht
  | invokeCheck a clnt params => exact h.good_invokeCheck ht
  | invokeBusy a c =>
    exact h.good_setBusy ht rfl (h.knows ht rfl).1 rfl rfl rfl ⟨rfl, rfl, rfl, fun _ _ _ _ hk => hk⟩
  | invokeEnter a c => exact h.good_invokeEnter ht
  | invokeTa a c => exact h.good_invokeTa ht
  | invokeLeft a c res => exact h.good_invokeLeft ht
  | invokeRelease a c => exact h.good_release ht rfl (h.knows ht rfl) rfl rfl rfl fun hk => hk
  | invokeClear a c res =>
    exact h.good_clear ht (h.ctx_lt ht rfl (h.knows ht rfl)) rfl rfl ⟨rfl, rfl, rfl,
      fun _ _ _ _ _ => trivial⟩
  | invokePut a res => exact h.good_drop ht rfl rfl rfl
  | close o id clnt => exact h.good_close (hclose rfl) (hready rfl)
  | closeId a o clnt => exact h.good_closeId ht
  | closeGet a o id clnt => exact h.good_closeGet ht
  | closeWait a clnt => exact h.good_closeWait ht
  | closeCheck a clnt => exact h.good_closeCheck ht
  | closePut a => exact h.good_drop ht rfl rfl rfl
  | closeBusy a c =>
    exact h.good_setBusy ht rfl (h.knows ht rfl).1 rfl rfl rfl ⟨rfl, rfl, rfl, fun _ _ _ _ hk => hk⟩
  | closeEnter a c => exact h.good_closeEnter ht
  | closeTa a c => exact h.good_closeTa ht
  | closeUnlink a c => exact h.good_closeUnlink ht
  | closeUnlinkWait a c => exact h.good_closeUnlinkWait ht
  | closeFree a c => exact h.good_closeFree ht
  | closeClear c =>
    exact h.good_clear ht (h.owing ht rfl).1 rfl rfl ⟨rfl, rfl, rfl, fun _ _ _ _ _ => trivial⟩
  | closeDec c => exact h.good_closeDec ht
  | drain c destroy => exact h.good_drain ht (hclose rfl) (hready rfl)
  | cancel id => exact h.good_cancel fun a ha => (hfound rfl a ha).1
  | cancelSet a => exact h.good_cancelSet ht
  | cancelPut a res => exact h.good_cancelPut ht

end

end Optee.TaManager
