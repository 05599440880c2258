import Mathlib.Data.List.Perm.Basic
import Optee.Pkcs11.SessionRun

/-!
# Sessions and logins

The sessions of a client with a token are in the same role, and the counters of a token are those of
its sessions (`Coherent`). The commands work on the part of a session that `Core` has.
-/

namespace Optee.Pkcs11

/-- What the states of sessions depend on. -/
structure Core where
  client : ℕ
  handle : ℕ
  token : ℕ
  state : SessionState

/-- What tells sessions apart. -/
def Core.key (c : Core) : ℕ × ℕ := (c.client, c.handle)

/-- The session without its object handles and its processing. -/
def Session.core (s : Session) : Core := ⟨s.client, s.handle, s.token, s.state⟩

/-- All sessions. -/
def Ta.cores (ta : Ta) : List Core := ta.sessions.map Session.core

/-- Who is logged in. -/
def SessionState.role : SessionState → Option Role
  | .roPublicSession | .rwPublicSession => none
  | .roUserFunctions | .rwUserFunctions => some .user
  | .rwSoFunctions => some .so

/-- One role for each client and token, no read-only session next to the SO, and exact counts. -/
structure Coherent (ta : Ta) : Prop where
  role : ∀ a ∈ ta.cores, ∀ b ∈ ta.cores, a.client = b.client → a.token = b.token →
    a.state.role = b.state.role
  readOnly : ∀ a ∈ ta.cores, ∀ b ∈ ta.cores, a.client = b.client → a.token = b.token →
    a.state.isSo →
    b.state.isReadWrite
  count : ∀ t, (ta.tokens t).sessionCount = ta.cores.countP (·.token = t)
  rwCount : ∀ t, (ta.tokens t).rwSessionCount =
    ta.cores.countP fun c => c.token = t && c.state.isReadWrite

/-- Sessions are coherent, and an SO is logged in to a token that is initialised. -/
structure SessionsInv (cfg : Config) (ta : Ta) : Prop where
  coherent : Coherent ta
  keys : (ta.cores.map Core.key).Nodup
  token : ∀ c ∈ ta.cores, c.token < cfg.tokenCount
  initialized : ∀ c ∈ ta.cores, c.state.isSo → (ta.tokens c.token).dbMain.tokenInitialized

variable {cfg : Config} {env : Env} {ta ta' : Ta} {client handle token : ℕ} {session : Session}

/-! ## Frames -/

/-- What a token has in storage, and its objects. -/
def Token.db (t : Token) : Main × List ℕ × List Object := (t.dbMain, t.dbObjs, t.objects)

theorem tokens_modifyToken (ta : Ta) (token t : ℕ) (f : Token → Token) :
    (ta.modifyToken token f).tokens t = if t = token then f (ta.tokens t) else ta.tokens t := by
  rw [Ta.modifyToken]
  dsimp only
  rw [Function.update_apply]
  by_cases ht : t = token
  · rw [if_pos ht, if_pos ht, ht]
  · rw [if_neg ht, if_neg ht]

/-- Sessions and tokens are as before. -/
structure SameSessions (ta ta' : Ta) : Prop where
  cores : ta'.cores = ta.cores
  tokens : ta'.tokens = ta.tokens

theorem SameSessions.refl (ta : Ta) : SameSessions ta ta := ⟨rfl, rfl⟩

theorem SameSessions.trans {ta₁ ta₂ : Ta} (h : SameSessions ta ta₁) (h' : SameSessions ta₁ ta₂) :
    SameSessions ta ta₂ := ⟨h'.cores.trans h.cores, h'.tokens.trans h.tokens⟩

theorem SameSessions.foldl {f : Ta → Object → Ta} (hf : ∀ ta a, SameSessions ta (f ta a)) :
    ∀ (l : List Object) (ta : Ta), SameSessions ta (l.foldl f ta)
  | [], ta => .refl ta
  | a :: l, ta => (hf ta a).trans (SameSessions.foldl hf l (f ta a))

theorem SameSessions.modifySession {f : Session → Session} (hf : ∀ s, (f s).core = s.core) :
    SameSessions ta (ta.modifySession client handle f) := by
  refine ⟨?_, rfl⟩
  rw [Ta.cores, Ta.modifySession, List.map_map]
  refine List.map_congr_left fun s _ => ?_
  simp only [Function.comp_apply]
  split_ifs
  · exact hf s
  · rfl

theorem SameSessions.destroySessionObject (obj : Object) :
    SameSessions ta (destroySessionObject client handle ta obj) := by
  have hput : SameSessions ta (putHandle client ta obj) := ⟨rfl, rfl⟩
  exact hput.trans (.modifySession fun _ => rfl)

theorem SameSessions.putPrivateHandle (obj : Object) :
    SameSessions ta (putPrivateHandle client ta obj) := by
  rw [Pkcs11.putPrivateHandle]
  split_ifs
  · exact ⟨rfl, rfl⟩
  · exact .refl ta

theorem SessionsInv.same (h : SessionsInv cfg ta)
    (hs : SameSessions ta ta') : SessionsInv cfg ta' := by
  obtain ⟨hcores, htokens⟩ := hs
  refine ⟨⟨?_, ?_, ?_, ?_⟩, ?_, ?_, ?_⟩ <;> rw [hcores] <;> try rw [htokens]
  · exact h.coherent.role
  · exact h.coherent.readOnly
  · exact h.coherent.count
  · exact h.coherent.rwCount
  · exact h.keys
  · exact h.token
  · exact h.initialized

/-! ## Counting -/

theorem countP_filter_key (p : Core → Bool) {c : Core} :
    ∀ {l : List Core}, (l.map Core.key).Nodup → c ∈ l →
    l.countP p = (l.filter fun x => x.key ≠ c.key).countP p + if p c then 1 else 0
  | [], _, h => by cases h
  | x :: l, hnodup, h => by
    obtain ⟨hnot, hnodup⟩ := List.nodup_cons.1 hnodup
    rcases List.mem_cons.1 h with rfl | h
    · have hfilter : l.filter (fun x => x.key ≠ c.key) = l := by
        refine List.filter_eq_self.2 fun x hx => ?_
        have hne : x.key ≠ c.key := fun heq => hnot (heq ▸ List.mem_map_of_mem hx)
        simpa using hne
      rw [List.filter_cons_of_neg (by simp), hfilter, List.countP_cons]
    · have hne : x.key ≠ c.key := fun heq => hnot (heq ▸ List.mem_map_of_mem h)
      rw [List.filter_cons_of_pos (by simpa using hne), List.countP_cons, List.countP_cons,
        countP_filter_key p hnodup h]
      omega

/-! ## Closing -/

theorem cores_closeCkSession :
    (closeCkSession ta session).cores = ta.cores.filter fun c => c.key ≠ session.core.key := by
  have hsame := SameSessions.foldl (f := destroySessionObject session.client session.handle)
    (fun _ a => .destroySessionObject a) session.objects ta
  rw [← hsame.cores]
  simp only [closeCkSession, Ta.cores, Ta.modifyToken, List.filter_map]
  congr 1
  refine List.filter_congr fun s _ => ?_
  by_cases hclient : s.client = session.client <;> by_cases hhandle : s.handle = session.handle <;>
    simp [Core.key, Session.core, hclient, hhandle]

theorem tokens_closeCkSession :
    (closeCkSession ta session).tokens = Function.update ta.tokens session.token
    { ta.tokens session.token with
      sessionCount := (ta.tokens session.token).sessionCount - 1
      rwSessionCount :=
        if session.state.isReadWrite then (ta.tokens session.token).rwSessionCount - 1
        else (ta.tokens session.token).rwSessionCount } := by
  have hsame := SameSessions.foldl (f := destroySessionObject session.client session.handle)
    (fun _ a => .destroySessionObject a) session.objects ta
  rw [← hsame.tokens]
  rfl

theorem db_closeCkSession (ta : Ta) (session : Session) (t : ℕ) :
    ((closeCkSession ta session).tokens t).db = (ta.tokens t).db := by
  rw [tokens_closeCkSession, Function.update_apply]
  by_cases ht : t = session.token
  · rw [if_pos ht, ht]
    rfl
  · rw [if_neg ht]

theorem db_closeCkSessions (t : ℕ) : ∀ (l : List Session) (ta : Ta),
    ((l.foldl closeCkSession ta).tokens t).db = (ta.tokens t).db
  | [], _ => rfl
  | s :: l, ta => (db_closeCkSessions t l (closeCkSession ta s)).trans (db_closeCkSession ta s t)

theorem SessionsInv.closeCkSession (h : SessionsInv cfg ta) (hs : session.core ∈ ta.cores) :
    SessionsInv cfg (closeCkSession ta session) := by
  have hmem : ∀ c ∈ (Pkcs11.closeCkSession ta session).cores, c ∈ ta.cores := by
    intro c hc
    rw [cores_closeCkSession] at hc
    exact List.mem_of_mem_filter hc
  have hcount := fun p => countP_filter_key p h.keys hs
  refine ⟨⟨fun a ha b hb => h.coherent.role a (hmem a ha) b (hmem b hb),
    fun a ha b hb => h.coherent.readOnly a (hmem a ha) b (hmem b hb), fun t => ?_, fun t => ?_⟩, ?_,
    fun c hc => h.token c (hmem c hc), fun c hc hso => ?_⟩
  · have hold := h.coherent.count t
    have hall := hcount fun c => c.token = t
    rw [cores_closeCkSession, tokens_closeCkSession, Function.update_apply]
    by_cases ht : t = session.token
    · subst ht
      rw [if_pos rfl]
      have hone : (decide (session.core.token = session.token)) = true := by simp [Session.core]
      rw [hone, if_pos rfl] at hall
      dsimp only
      omega
    · rw [if_neg ht]
      have hone : (decide (session.core.token = t)) = false := decide_eq_false (Ne.symm ht)
      rw [hone] at hall
      simpa [hall] using hold
  · have hold := h.coherent.rwCount t
    have hall := hcount fun c => c.token = t && c.state.isReadWrite
    rw [cores_closeCkSession, tokens_closeCkSession, Function.update_apply]
    by_cases ht : t = session.token
    · subst ht
      rw [if_pos rfl]
      dsimp only
      have hone : (decide (session.core.token = session.token) && session.core.state.isReadWrite) =
          session.state.isReadWrite := by simp [Session.core]
      rw [hone] at hall
      split_ifs at hall ⊢ <;> omega
    · rw [if_neg ht]
      have hone : (decide (session.core.token = t) && session.core.state.isReadWrite) = false := by
        simp [Session.core, Ne.symm ht]
      rw [hone] at hall
      simpa [hall] using hold
  · rw [cores_closeCkSession]
    exact h.keys.sublist (List.filter_sublist.map _)
  · have hmain := congrArg Prod.fst (db_closeCkSession ta session c.token)
    exact congrArg Main.tokenInitialized hmain ▸ h.initialized c (hmem c hc) hso

theorem SessionsInv.closeAll : ∀ {l : List Session} {ta : Ta}, SessionsInv cfg ta →
    (∀ s ∈ l, s.core ∈ ta.cores) → (l.map fun s => s.core.key).Nodup →
    SessionsInv cfg (l.foldl Pkcs11.closeCkSession ta)
  | [], _, h, _, _ => h
  | s :: l, ta, h, hmem, hnodup => by
    obtain ⟨hnot, hnodup⟩ := List.nodup_cons.1 hnodup
    refine SessionsInv.closeAll (l := l) (h.closeCkSession (hmem s List.mem_cons_self))
      (fun s' hs' => ?_) hnodup
    rw [cores_closeCkSession]
    refine List.mem_filter.2 ⟨hmem s' (List.mem_cons_of_mem s hs'), ?_⟩
    have hne : s'.core.key ≠ s.core.key := fun heq => hnot (List.mem_map.2 ⟨s', hs', heq⟩)
    simpa using hne

theorem SessionsInv.closeFilter (h : SessionsInv cfg ta) (p : Session → Bool) :
    SessionsInv cfg ((ta.sessions.filter p).foldl Pkcs11.closeCkSession ta) := by
  refine SessionsInv.closeAll h (fun s hs => List.mem_map_of_mem (List.mem_of_mem_filter hs)) ?_
  have hkeys := h.keys
  rw [Ta.cores, List.map_map] at hkeys
  exact hkeys.sublist (List.filter_sublist.map _)

theorem SessionsInv.unregisterClient (h : SessionsInv cfg ta) :
    SessionsInv cfg (unregisterClient ta client) :=
  (h.closeFilter (·.client = client)).same ⟨rfl, rfl⟩

/-! ## Opening -/

theorem isReadWrite_of_isSo {s : SessionState} (h : s.isSo) : s.isReadWrite := by
  cases s <;> first | rfl | cases h

theorem isSo_of_role {s s' : SessionState} (h : s.role = s'.role) (hs : s.isSo) : s'.isSo := by
  cases s <;> cases s' <;> simp_all [SessionState.role, SessionState.isSo]

theorem loginState_ok {s : SessionState} {readonly : Bool} (h : readonly → s.isSo = false) :
    ∃ state, loginState s readonly = .ok state ∧ state.isReadWrite = !readonly
      ∧ state.role = s.role := by
  cases s <;> cases readonly <;> simp_all [loginState, SessionState.role, SessionState.isSo,
    SessionState.isReadWrite]

theorem freshHandle_not_mem (handles : List ℕ) : freshHandle handles ∉ handles := by
  have hex : ∃ h ∈ (List.range (handles.length + 1)).map (· + 1), h ∉ handles := by
    by_contra hcon
    push Not at hcon
    have hnodup : ((List.range (handles.length + 1)).map (· + 1)).Nodup :=
      List.nodup_range.map fun a b hab => by omega
    have hle := (List.subperm_of_subset hnodup hcon).length_le
    rw [List.length_map, List.length_range] at hle
    omega
  obtain ⟨h, hmem, hnot⟩ := hex
  have hsome :
      (((List.range (handles.length + 1)).map (· + 1)).find? fun h => h ∉ handles).isSome :=
    List.find?_isSome.2 ⟨h, hmem, by simpa using hnot⟩
  obtain ⟨h', hfind⟩ := Option.isSome_iff_exists.1 hsome
  rw [freshHandle, hfind]
  simpa using List.find?_some hfind

theorem siblings_mem {s : Session} (hs : s ∈ ta.siblings client token) :
    s ∈ ta.sessions ∧ s.client = client ∧ s.token = token := by
  simpa [Ta.siblings] using hs

section

variable (h : SessionsInv cfg ta)
include h

theorem setSessionState_ok (token : ℕ) {readonly : Bool}
    (hso : readonly → ∀ c ∈ ta.cores, c.client = client → c.state.isSo = false) :
    ∃ state, setSessionState ta client token readonly = .ok state ∧ state.isReadWrite = !readonly ∧
      (∀ c ∈ ta.cores, c.client = client → c.token = token → c.state.role = state.role) ∧
      (state.isSo → ∃ c ∈ ta.cores, c.token = token ∧ c.state.isSo) := by
  rw [setSessionState]
  cases hsib : ta.siblings client token with
  | nil =>
    refine ⟨_, rfl, by cases readonly <;> rfl, fun c hc hclient htoken => ?_,
      fun hs => by cases readonly <;> cases hs⟩
    obtain ⟨s, hs, rfl⟩ := List.mem_map.1 hc
    have hmem : s ∈ ta.siblings client token :=
      List.mem_filter.2 ⟨hs, by simpa using ⟨hclient, htoken⟩⟩
    rw [hsib] at hmem
    cases hmem
  | cons s l =>
    obtain ⟨hs, hclient, htoken⟩ :=
      siblings_mem (hsib ▸ List.mem_cons_self : s ∈ ta.siblings client token)
    have hcore : s.core ∈ ta.cores := List.mem_map_of_mem hs
    obtain ⟨state, hstate, hrw, hrole⟩ := loginState_ok fun hr => hso hr s.core hcore hclient
    refine ⟨state, hstate, hrw, fun c hc hcl htk => ?_,
      fun hs => ⟨s.core, hcore, htoken, isSo_of_role hrole hs⟩⟩
    rw [hrole]
    exact h.coherent.role c hc s.core hcore (hcl.trans hclient.symm) (htk.trans htoken.symm)

theorem SessionsInv.openSession {c : Core} {l : List Session} {f : Token → Token}
    (hcores : l.map Session.core = c :: ta.cores) (htoken : c.token < cfg.tokenCount)
    (hkey : c.key ∉ ta.cores.map Core.key)
    (hrole : ∀ x ∈ ta.cores, x.client = c.client → x.token = c.token → x.state.role = c.state.role)
    (hinit : c.state.isSo → (ta.tokens c.token).dbMain.tokenInitialized)
    (hmain : ∀ t, (f t).dbMain = t.dbMain) (hcount : ∀ t, (f t).sessionCount = t.sessionCount + 1)
    (hrw : ∀ t, (f t).rwSessionCount = t.rwSessionCount + if c.state.isReadWrite then 1 else 0) :
    SessionsInv cfg ({ ta with sessions := l }.modifyToken c.token f) := by
  have hnew : ({ ta with sessions := l }.modifyToken c.token f).cores = c :: ta.cores := hcores
  have htokens : ∀ t, (({ ta with sessions := l }.modifyToken c.token f).tokens t).dbMain
      = (ta.tokens t).dbMain := by
    intro t
    rw [Ta.modifyToken]
    dsimp only
    rw [Function.update_apply]
    by_cases ht : t = c.token
    · rw [if_pos ht, hmain, ht]
    · rw [if_neg ht]
  have hroles : ∀ a ∈ c :: ta.cores, ∀ b ∈ c :: ta.cores, a.client = b.client → a.token = b.token →
      a.state.role = b.state.role := by
    intro a ha b hb hab htab
    rcases List.mem_cons.1 ha with hac | ha <;> rcases List.mem_cons.1 hb with hbc | hb
    · rw [hac, hbc]
    · subst hac
      exact (hrole b ‹_› hab.symm htab.symm).symm
    · subst hbc
      exact hrole a ‹_› hab htab
    · exact h.coherent.role a ‹_› b hb hab htab
  refine ⟨⟨?_, ?_, fun t => ?_, fun t => ?_⟩, ?_, ?_, ?_⟩ <;> rw [hnew]
  · exact hroles
  · intro a ha b hb hab htab hso
    exact isReadWrite_of_isSo (isSo_of_role (hroles a ha b hb hab htab) hso)
  · have hold := h.coherent.count t
    rw [Ta.modifyToken, List.countP_cons, ← hold]
    dsimp only
    rw [Function.update_apply]
    by_cases ht : t = c.token
    · rw [if_pos ht, hcount, ht, if_pos (by simp)]
    · rw [if_neg ht, if_neg (by simpa using Ne.symm ht), Nat.add_zero]
  · have hold := h.coherent.rwCount t
    rw [Ta.modifyToken, List.countP_cons, ← hold]
    dsimp only
    rw [Function.update_apply]
    by_cases ht : t = c.token
    · rw [if_pos ht, hrw, ht]
      simp
    · rw [if_neg ht, if_neg (by simp [Ne.symm ht]), Nat.add_zero]
  · exact List.nodup_cons.2 ⟨hkey, h.keys⟩
  · exact List.forall_mem_cons.2 ⟨htoken, h.token⟩
  · refine List.forall_mem_cons.2 ⟨fun hso => ?_, fun x hx hso => ?_⟩
    · rw [htokens]
      exact hinit hso
    · rw [htokens]
      exact h.initialized x hx hso

theorem SessionsInv.entryCkOpenSession (client token flags : ℕ) :
    ∃ r ta', entryCkOpenSession cfg ta client token flags = .ok (r, ta', []) ∧ SessionsInv cfg ta' ∧
      ∀ t, (ta'.tokens t).db = (ta.tokens t).db := by
  rw [Pkcs11.entryCkOpenSession]
  dsimp only
  generalize (decide (flags &&& PKCS11_CKFSS_RW_SESSION = 0)) = readonly
  by_cases h1 : cfg.tokenCount ≤ token
  · exact ⟨_, _, if_pos h1, h, fun _ => rfl⟩
  rw [if_neg h1]
  by_cases h2 : flags &&& PKCS11_CKFSS_SERIAL_SESSION = 0
  · exact ⟨_, _, if_pos h2, h, fun _ => rfl⟩
  rw [if_neg h2]
  by_cases h3 : flags ≠ flags &&& (PKCS11_CKFSS_RW_SESSION ||| PKCS11_CKFSS_SERIAL_SESSION)
  · exact ⟨_, _, if_pos h3, h, fun _ => rfl⟩
  rw [if_neg h3]
  by_cases h4 : (!readonly && decide ((ta.tokens token).state = .readOnly)) = true
  · exact ⟨_, _, if_pos h4, h, fun _ => rfl⟩
  rw [if_neg h4]
  by_cases h5 : (readonly && ta.sessions.any fun s => decide (s.client = client)
    && s.state.isSo) = true
  · exact ⟨_, _, if_pos h5, h, fun _ => rfl⟩
  rw [if_neg h5]
  rw [Bool.and_eq_true, not_and, List.any_eq_true] at h5
  have hso : readonly → ∀ c ∈ ta.cores, c.client = client → c.state.isSo = false := by
    intro hr c hc hclient
    obtain ⟨s, hs, rfl⟩ := List.mem_map.1 hc
    refine Bool.eq_false_iff.2 fun hcon => h5 hr ⟨s, hs, ?_⟩
    rw [Bool.and_eq_true, decide_eq_true_eq]
    exact ⟨hclient, hcon⟩
  obtain ⟨state, hstate, hrw, hrole, hinit⟩ := setSessionState_ok h token hso
  rw [hstate]
  refine ⟨_, _, rfl, SessionsInv.openSession h (c := ⟨client, _, token, state⟩) rfl
    (Nat.not_le.1 h1) ?_ hrole (fun hs => ?_) (fun _ => rfl) (fun _ => rfl) (fun t => ?_),
    fun t => ?_⟩
  · intro hmem
    obtain ⟨c, hc, hkey⟩ := List.mem_map.1 hmem
    obtain ⟨s, hs, rfl⟩ := List.mem_map.1 hc
    simp only [Core.key, Session.core, Prod.mk.injEq] at hkey
    refine freshHandle_not_mem ((ta.sessions.filter (·.client = client)).map (·.handle)) ?_
    rw [← hkey.2]
    have hfilter : s ∈ ta.sessions.filter (·.client = client) :=
      List.mem_filter.2 ⟨hs, by simpa using hkey.1⟩
    exact List.mem_map_of_mem (f := (·.handle)) hfilter
  · obtain ⟨c, hc, htoken, hso⟩ := hinit hs
    rw [← htoken]
    exact h.initialized c hc hso
  · rw [hrw]
    cases readonly <;> rfl
  · refine (congrArg Token.db (tokens_modifyToken _ token t _)).trans ?_
    split_ifs <;> rfl

/-! ## Login and logout -/

theorem SessionsInv.modifyToken (f : Token → Token)
    (hcount : ∀ t, (f t).sessionCount = t.sessionCount)
    (hrw : ∀ t, (f t).rwSessionCount = t.rwSessionCount)
    (hinit : (ta.tokens token).dbMain.tokenInitialized →
      (f (ta.tokens token)).dbMain.tokenInitialized) :
    SessionsInv cfg (ta.modifyToken token f) := by
  have htokens : ∀ t, ((ta.modifyToken token f).tokens t).sessionCount
    = (ta.tokens t).sessionCount ∧
      ((ta.modifyToken token f).tokens t).rwSessionCount = (ta.tokens t).rwSessionCount ∧
      ((ta.tokens t).dbMain.tokenInitialized →
      ((ta.modifyToken token f).tokens t).dbMain.tokenInitialized) := by
    intro t
    rw [Ta.modifyToken]
    dsimp only
    rw [Function.update_apply]
    by_cases ht : t = token
    · subst ht
      rw [if_pos rfl]
      exact ⟨hcount _, hrw _, hinit⟩
    · rw [if_neg ht]
      exact ⟨rfl, rfl, id⟩
  refine ⟨⟨h.coherent.role, h.coherent.readOnly, fun t => ?_, fun t => ?_⟩, h.keys, h.token,
    fun c hc hso => ?_⟩
  · rw [(htokens t).1]
    exact h.coherent.count t
  · rw [(htokens t).2.1]
    exact h.coherent.rwCount t
  · exact (htokens c.token).2.2 (h.initialized c hc hso)

theorem SessionsInv.setMain {main : Main}
    (hinit : (ta.tokens token).dbMain.tokenInitialized → main.tokenInitialized) :
    SessionsInv cfg (ta.setMain token main) :=
  h.modifyToken _ (fun _ => rfl) (fun _ => rfl) hinit

end

theorem cores_setStates (ta : Ta) (f : SessionState → SessionState) (p : Core → Prop)
    [DecidablePred p] :
    (ta.sessions.map fun s => if p s.core then { s with state := f s.state }
      else s).map Session.core =
      ta.cores.map fun c => if p c then { c with state := f c.state } else c := by
  rw [Ta.cores, List.map_map, List.map_map]
  refine List.map_congr_left fun s _ => ?_
  simp only [Function.comp_apply]
  by_cases hp : p s.core
  · rw [if_pos hp, if_pos hp]
    rfl
  · rw [if_neg hp, if_neg hp]

theorem SessionsInv.setRole (h : SessionsInv cfg ta) (client token : ℕ)
    (f : SessionState → SessionState) (r : Option Role)
    (hrw : ∀ c ∈ ta.cores, c.client = client → c.token = token →
      (f c.state).isReadWrite = c.state.isReadWrite)
    (hrole : ∀ s, (f s).role = r) (hinit : r = some .so → (ta.tokens token).dbMain.tokenInitialized)
    (hcores : ta'.cores = ta.cores.map fun c => if c.client = client
      ∧ c.token = token then { c with state := f c.state } else c)
    (htokens : ta'.tokens = ta.tokens) : SessionsInv cfg ta' := by
  have hroles : ∀ a ∈ ta'.cores, ∀ b ∈ ta'.cores, a.client = b.client → a.token = b.token →
      a.state.role = b.state.role := by
    rw [hcores]
    intro a' ha' b' hb' hab htab
    obtain ⟨a, ha, rfl⟩ := List.mem_map.1 ha'
    obtain ⟨b, hb, rfl⟩ := List.mem_map.1 hb'
    split_ifs at hab htab ⊢ with h1 h2 h2
    · rw [hrole, hrole]
    · exact absurd ⟨hab.symm.trans h1.1, htab.symm.trans h1.2⟩ h2
    · exact absurd ⟨hab.trans h2.1, htab.trans h2.2⟩ h1
    · exact h.coherent.role a ha b hb hab htab
  refine ⟨⟨hroles, fun a ha b hb hab htab hso => isReadWrite_of_isSo
    (isSo_of_role (hroles a ha b hb hab htab) hso), fun t => ?_, fun t => ?_⟩, ?_, fun c' hc' => ?_,
    fun c' hc' hso => ?_⟩
  · rw [htokens, h.coherent.count t, hcores, List.countP_map]
    refine List.countP_congr fun c _ => ?_
    simp only [Function.comp_apply]
    split_ifs <;> rfl
  · rw [htokens, h.coherent.rwCount t, hcores, List.countP_map]
    refine List.countP_congr fun c hc => ?_
    simp only [Function.comp_apply]
    split_ifs with hsib
    · simp only [hrw c hc hsib.1 hsib.2]
    · rfl
  · rw [hcores, List.map_map]
    refine (List.map_congr_left fun c _ => ?_ : _ = ta.cores.map Core.key) ▸ h.keys
    simp only [Function.comp_apply]
    split_ifs <;> rfl
  · rw [hcores] at hc'
    obtain ⟨c, hc, rfl⟩ := List.mem_map.1 hc'
    split_ifs <;> exact h.token c hc
  · rw [hcores] at hc'
    rw [htokens]
    obtain ⟨c, hc, rfl⟩ := List.mem_map.1 hc'
    split_ifs at hso ⊢ with hsib
    · dsimp only at hso ⊢
      rw [hsib.2]
      refine hinit ?_
      rw [← hrole c.state]
      cases hf : f c.state <;> rw [hf] at hso <;> first | rfl | cases hso
    · exact h.initialized c hc hso

/-- The state after the login of the user. -/
def SessionState.toUser (s : SessionState) : SessionState :=
  if s.isReadWrite then .rwUserFunctions else .roUserFunctions

theorem SessionsInv.sessionLoginUser (h : SessionsInv cfg ta) :
    SessionsInv cfg (sessionLoginUser ta session) := by
  refine h.setRole session.client session.token .toUser (some .user) (fun c _ _ _ => ?_)
    (fun s => ?_) (fun hr => by cases hr) (cores_setStates ta SessionState.toUser fun c => c.client
    = session.client ∧ c.token = session.token) rfl
  · cases hs : c.state <;> rfl
  · cases s <;> rfl

theorem SessionsInv.sessionLoginSo (h : SessionsInv cfg ta) (session : Session)
    (hrw : ∀ s ∈ ta.siblings session.client session.token, s.state.isReadWrite)
    (hinit : (ta.tokens session.token).dbMain.tokenInitialized) :
    ∃ ta', sessionLoginSo ta session = .ok ta' ∧ SessionsInv cfg ta' := by
  have hany : (ta.siblings session.client session.token).any (!·.state.isReadWrite) = false := by
    rw [List.any_eq_false]
    intro s hs
    simp [hrw s hs]
  rw [Pkcs11.sessionLoginSo, hany]
  refine ⟨_, rfl, h.setRole session.client session.token (fun _ => .rwSoFunctions) (some .so)
    (fun c hc hclient htoken => ?_) (fun _ => rfl) (fun _ => hinit)
    (cores_setStates ta (fun _ => .rwSoFunctions) fun c => c.client = session.client
    ∧ c.token = session.token) rfl⟩
  obtain ⟨s, hs, rfl⟩ := List.mem_map.1 hc
  exact (hrw s (List.mem_filter.2 ⟨hs, by simpa using ⟨hclient, htoken⟩⟩)).symm

/-- The state after a logout. -/
def SessionState.toPublic (s : SessionState) : SessionState :=
  if s.isReadWrite then .rwPublicSession else .roPublicSession

theorem SessionState.toPublic_toPublic (s : SessionState) : s.toPublic.toPublic = s.toPublic := by
  cases s <;> rfl

/-- The session after a logout. -/
def Core.toPublic (c : Core) : Core := { c with state := c.state.toPublic }

theorem cores_logoutSibling (session : Session) (ta : Ta) (sess : Session) :
    (logoutSibling session ta sess).tokens = ta.tokens ∧
    (logoutSibling session ta sess).cores = ta.cores.map fun c =>
      if c.key = sess.core.key then c.toPublic else c := by
  rw [logoutSibling]
  set ta₁ := ta.modifySession session.client session.handle fun s => { s with processing := none }
  have h₁ : SameSessions ta ta₁ := .modifySession fun _ => rfl
  set ta₂ := (sess.objects.filter fun obj => objectIsPrivate obj.attrs).foldl
    (destroySessionObject sess.client sess.handle) ta₁
  have h₂ : SameSessions ta ta₂ := h₁.trans (.foldl (fun _ a => .destroySessionObject a) _ _)
  set ta₃ := (ta₂.tokens session.token).objects.foldl (putPrivateHandle session.client) ta₂
  have h₃ : SameSessions ta ta₃ := h₂.trans (.foldl (fun _ a => .putPrivateHandle a) _ _)
  set ta₄ := ta₃.modifySession session.client session.handle fun s => { s with findCtx := none }
  have h₄ : SameSessions ta ta₄ := h₃.trans (.modifySession fun _ => rfl)
  refine ⟨h₄.tokens, ?_⟩
  rw [← h₄.cores]
  have hkey : ∀ s : Session, s.core.key = sess.core.key
      ↔ s.client = sess.client ∧ s.handle = sess.handle :=
    fun s => Prod.mk.injEq .. ▸ Iff.rfl
  refine Eq.trans ?_ (cores_setStates ta₄ SessionState.toPublic fun c => c.key = sess.core.key)
  simp only [hkey]
  rfl

theorem cores_logoutSiblings (session : Session) : ∀ (l : List Session) (ta : Ta),
    (l.foldl (logoutSibling session) ta).tokens = ta.tokens ∧
    (l.foldl (logoutSibling session) ta).cores = ta.cores.map fun c =>
      if c.key ∈ l.map fun s => s.core.key then c.toPublic else c
  | [], ta => by simp
  | s :: l, ta => by
    obtain ⟨htokens, hcores⟩ := cores_logoutSibling session ta s
    obtain ⟨htokens', hcores'⟩ := cores_logoutSiblings session l (logoutSibling session ta s)
    refine ⟨htokens'.trans htokens, ?_⟩
    rw [List.foldl_cons, hcores', hcores, List.map_map]
    refine List.map_congr_left fun c _ => ?_
    simp only [Function.comp_apply, List.map_cons, List.mem_cons]
    by_cases hs : c.key = s.core.key <;> by_cases hl : c.key ∈ l.map fun s => s.core.key
    · have hkey : c.toPublic.key ∈ l.map fun s => s.core.key := hl
      rw [if_pos hs, if_pos hkey, if_pos (.inl hs), Core.toPublic, Core.toPublic,
        SessionState.toPublic_toPublic]
    · have hkey : c.toPublic.key ∉ l.map fun s => s.core.key := hl
      rw [if_pos hs, if_neg hkey, if_pos (.inl hs)]
    · rw [if_neg hs, if_pos hl, if_pos (.inr hl)]
    · rw [if_neg hs, if_neg hl, if_neg (not_or.2 ⟨hs, hl⟩)]

theorem cores_sessionLogout (session : Session) (hkeys : (ta.cores.map Core.key).Nodup) :
    (sessionLogout ta session).tokens = ta.tokens ∧
    (sessionLogout ta session).cores = ta.cores.map fun c =>
      if c.client = session.client ∧ c.token = session.token then c.toPublic else c := by
  obtain ⟨htokens, hcores⟩ :=
    cores_logoutSiblings session (ta.siblings session.client session.token) ta
  refine ⟨htokens, hcores.trans (List.map_congr_left fun c hc => ?_)⟩
  refine if_congr ⟨fun hmem => ?_, fun hsib => ?_⟩ rfl rfl
  · obtain ⟨s, hs, hkey⟩ := List.mem_map.1 hmem
    obtain ⟨hs, hclient, htoken⟩ := siblings_mem hs
    have heq := List.inj_on_of_nodup_map hkeys (List.mem_map_of_mem hs) hc hkey
    rw [← heq]
    exact ⟨hclient, htoken⟩
  · obtain ⟨s, hs, rfl⟩ := List.mem_map.1 hc
    refine List.mem_map.2 ⟨s, List.mem_filter.2 ⟨hs, ?_⟩, rfl⟩
    rw [Bool.and_eq_true, decide_eq_true_eq, decide_eq_true_eq]
    exact hsib

theorem SessionsInv.sessionLogout (h : SessionsInv cfg ta) :
    SessionsInv cfg (sessionLogout ta session) := by
  obtain ⟨htokens, hcores⟩ := cores_sessionLogout session h.keys
  refine h.setRole session.client session.token .toPublic none (fun c _ _ _ => ?_) (fun s => ?_)
    (fun hr => by cases hr) hcores htokens
  · cases hs : c.state <;> rfl
  · cases s <;> rfl

end Optee.Pkcs11
