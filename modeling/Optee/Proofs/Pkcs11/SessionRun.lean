import Mathlib
import Optee.Proofs.Pkcs11.Storage

/-!
# Runs of the session commands

What a command does to the databases is said once (`DbSpec`). From it follow what is stored wherever
the power is cut, and that the sessions are coherent and no panic is reached (`sessions_coherent`).
Wrong PINs are counted in storage (`wrong_pins_counted`).
-/

namespace Optee.Pkcs11

variable {cfg : Config} {env : Env} {disk : Disk} {ta ta' : Ta} {token t : ℕ} {session : Session}
  {c : SessionCommand} {l : List Act} {main main' : Main}

/-! ## Databases -/

/-- An initialisation that compares the PIN of the SO and finds it wrong. -/
def WrongSoPin (cfg : Config) (env : Env) (ta : Ta) (token : ℕ) (pin : List UInt8) : Prop :=
  token < cfg.tokenCount ∧ (ta.tokens token).dbMain.so.locked = false ∧
    (∀ s ∈ ta.sessions, s.token ≠ token) ∧
    (ta.tokens token).dbMain.tokenInitialized = true ∧
    (cfg.authTeeIdentity && (ta.tokens token).dbMain.protectedAuthenticationPath) = false ∧
    verifyPin cfg env .so pin (ta.tokens token).dbMain.so.salt (ta.tokens token).dbMain.so.secret
    = .pinIncorrect

instance {pin : List UInt8} : Decidable (WrongSoPin cfg env ta token pin) :=
  inferInstanceAs (Decidable (_ ∧ _))

/-- No PIN is compared more often than its counter says. -/
def AllCounted (token : ℕ) (main : Main) (l : List Act) : Prop :=
  ∀ role w, w ≤ (main.pin role).count → Counts token role ((main.pin role).count, w) l

/-- The objects of a token are left, or all are removed. -/
inductive ObjSpec (token : ℕ) (ta ta' : Ta) : List Act → Prop
  | left (dbObjs : (ta'.tokens token).dbObjs = (ta.tokens token).dbObjs)
    (objects : (ta'.tokens token).objects = (ta.tokens token).objects) : ObjSpec token ta ta' []
  | removed (dbObjs : (ta'.tokens token).dbObjs = []) (objects : (ta'.tokens token).objects = []) :
    ObjSpec token ta ta' (clearActs token (ta.tokens token).objects (ta.tokens token).dbObjs)

/-- What a command does to the databases. -/
inductive DbSpec (cfg : Config) (c : SessionCommand) (ta ta' : Ta) : List Act → Prop
  | nothing (same : ∀ t, (ta'.tokens t).db = (ta.tokens t).db) : DbSpec cfg c ta ta' []
  | token (token : ℕ) (pinActs objActs : List Act) (lt : token < cfg.tokenCount)
    (others : ∀ t, t ≠ token → (ta'.tokens t).db = (ta.tokens t).db)
    (pins : PinSpec cfg token (ta.tokens token).dbMain (ta'.tokens token).dbMain pinActs)
    (objects : ObjSpec token ta ta' objActs)
    (counts : AllCounted token (ta.tokens token).dbMain pinActs ∨
      (∃ env pin label, c = .tokenInitialize env token pin label ∧
      WrongSoPin cfg env ta token pin) ∧
        objActs = [] ∧ pinActs = [.verify token .so .pinIncorrect,
        .writeMain token { (ta.tokens token).dbMain with
          so := (ta.tokens token).dbMain.so.preset PKCS11_TOKEN_SO_PIN_COUNT_MAX } []]) :
    DbSpec cfg c ta ta' (pinActs ++ objActs)

theorem DbSpec.setMain (lt : token < cfg.tokenCount)
    (pins : PinSpec cfg token (ta.tokens token).dbMain main' l)
    (counts : AllCounted token (ta.tokens token).dbMain l ∨
      (∃ env pin label, c = .tokenInitialize env token pin label ∧
      WrongSoPin cfg env ta token pin) ∧
      l = [.verify token .so .pinIncorrect, .writeMain token { (ta.tokens token).dbMain with
        so := (ta.tokens token).dbMain.so.preset PKCS11_TOKEN_SO_PIN_COUNT_MAX } []])
    (tokens : ta'.tokens = (ta.setMain token main').tokens) : DbSpec cfg c ta ta' l := by
  have htoken : ta'.tokens token = { ta.tokens token with dbMain := main' } := by
    rw [tokens, Ta.setMain, tokens_modifyToken, if_pos rfl]
  have hother : ∀ t, t ≠ token → (ta'.tokens t).db = (ta.tokens t).db := by
    intro t ht
    rw [tokens, Ta.setMain, tokens_modifyToken, if_neg ht]
  rw [← List.append_nil l]
  refine .token token l [] lt hother (by rw [htoken]; exact pins)
    (.left (by rw [htoken]) (by rw [htoken])) ?_
  exact counts.imp_right fun h => ⟨h.1, rfl, h.2⟩

/-! ## Commands -/

/-- What a command does to sessions and to storage. -/
structure CommandSpec (cfg : Config) (c : SessionCommand) (ta : Ta)
    (x : Reply × Ta × List Act) : Prop where
  sessions : SessionsInv cfg x.2.1
  db : DbSpec cfg c ta x.2.1 x.2.2

theorem CommandSpec.fail (h : SessionsInv cfg ta) (rc : Rc) :
    CommandSpec cfg c ta (reply rc, ta, []) :=
  ⟨h, .nothing fun _ => rfl⟩

theorem withSession_ok {client handle : ℕ} {f : Session → Result} (h : SessionsInv cfg ta)
    (hf : ∀ s, s ∈ ta.sessions → ta.session client handle = some s →
      ∃ x, f s = .ok x ∧ CommandSpec cfg c ta x) :
    ∃ x, ta.withSession client handle f = .ok x ∧ CommandSpec cfg c ta x := by
  rw [Ta.withSession, Ta.withClient]
  split_ifs
  · exact ⟨_, rfl, .fail h _⟩
  cases hs : ta.session client handle with
  | none => exact ⟨_, rfl, .fail h _⟩
  | some s => exact hf s (List.mem_of_find?_eq_some hs) hs

variable {role : Role} {x : ℕ × ℕ} {event : SessionEvent} {w w' : World}

theorem Counts.last (h : Counts token role x l) :
    (tallyAll token role x l).2 ≤ (tallyAll token role x l).1 := by
  simpa using h.take l.length

theorem setCheckedPin_ok (env : Env) (role : Role) (pin : List UInt8) {r : Rc × Main × List Act}
    (h : CheckSpec cfg session.token (ta.tokens session.token).dbMain r) :
    ∃ x main', setCheckedPin cfg env ta session role pin r = .ok x ∧
      x.2.1 = ta.setMain session.token main' ∧
      PinSpec cfg session.token (ta.tokens session.token).dbMain main' x.2.2 ∧
      AllCounted session.token (ta.tokens session.token).dbMain x.2.2 := by
  obtain ⟨rc, m, acts⟩ := r
  by_cases hrc : rc = .ok
  · subst hrc
    have hset := setPin_spec env session.token role h.spec.inv session.state.isReadWrite pin
    refine ⟨_, _, rfl, rfl, h.spec.append hset, fun role' w hw => ?_⟩
    have hcounts := h.counts role' w hw
    refine hcounts.append ?_
    have hfst := tallyAll_fst session.token role' acts (ta.tokens session.token).dbMain w
    rw [h.spec.after] at hfst
    have hlast := hcounts.last
    rw [hfst] at hlast
    have hpair :
        tallyAll session.token role' (((ta.tokens session.token).dbMain.pin role').count, w) acts =
        ((m.pin role').count, (tallyAll session.token role'
          (((ta.tokens session.token).dbMain.pin role').count, w) acts).2) := Prod.ext hfst rfl
    rw [hpair]
    exact hset.counts role' hlast
  · have heq : setCheckedPin cfg env ta session role pin (rc, m, acts) =
        .ok (reply rc, ta.setMain session.token m, acts) := by
      cases rc <;> first | rfl | exact absurd rfl hrc
    exact ⟨_, m, heq, rfl, h.spec, h.counts⟩

theorem SessionsInv.of_mem (h : SessionsInv cfg ta) (hs : session ∈ ta.sessions) :
    session.token < cfg.tokenCount ∧
      (session.state.isSo → (ta.tokens session.token).dbMain.tokenInitialized) := by
  have hcore : session.core ∈ ta.cores := List.mem_map_of_mem hs
  exact ⟨h.token _ hcore, h.initialized _ hcore⟩

theorem entryCkInitPin_ok (h : SessionsInv cfg ta) (hdb : DbInv cfg ta disk)
    (hs : session ∈ ta.sessions) (pin : List UInt8) :
    ∃ x, entryCkInitPin cfg env ta session pin = .ok x ∧ CommandSpec cfg c ta x := by
  obtain ⟨hlt, hinit⟩ := h.of_mem hs
  rw [entryCkInitPin]
  by_cases hso : session.state.isSo = true
  · have hset := setPin_spec env session.token .user (hdb.main hlt) session.state.isReadWrite pin
    rw [if_neg (by simp [hso]), if_neg (by simp [hinit hso])]
    exact ⟨_, rfl, h.setMain hset.initialized,
      .setMain hlt hset.pinSpec (.inl fun role _ hw => hset.counts role hw) rfl⟩
  · exact ⟨_, if_pos (by simpa using hso), .fail h _⟩

theorem entryCkSetPin_ok (h : SessionsInv cfg ta) (hdb : DbInv cfg ta disk)
    (hs : session ∈ ta.sessions) (oldPin pin : List UInt8) :
    ∃ x, entryCkSetPin cfg env ta session oldPin pin = .ok x ∧ CommandSpec cfg c ta x := by
  obtain ⟨hlt, hinit⟩ := h.of_mem hs
  have hmain := hdb.main hlt
  -- Both roles go on in the same way once the old PIN was checked.
  have hchecked : ∀ role r, CheckSpec cfg session.token (ta.tokens session.token).dbMain r →
      ∃ x, setCheckedPin cfg env ta session role pin r = .ok x ∧ CommandSpec cfg c ta x := by
    intro role r hr
    obtain ⟨⟨reply, ta', acts⟩, main', heq, rfl, hspec, hcounts⟩ := setCheckedPin_ok env role pin hr
    exact ⟨_, heq, h.setMain hspec.initialized, .setMain hlt hspec (.inl hcounts) rfl⟩
  rw [entryCkSetPin]
  by_cases hrw : (!session.state.isReadWrite) = true
  · exact ⟨_, if_pos hrw, .fail h _⟩
  rw [if_neg hrw]
  by_cases hso : session.state.isSo = true
  · obtain ⟨r, hr, hcheck⟩ := checkSoPin_spec env session.token hmain oldPin (hinit hso)
    rw [if_pos hso, if_neg (by simp [hinit hso]), hr]
    exact hchecked .so r hcheck
  rw [if_neg hso]
  by_cases huser : (!(ta.tokens session.token).dbMain.userPinInitialized) = true
  · exact ⟨_, if_pos huser, .fail h _⟩
  obtain ⟨r, hr, hcheck⟩ := checkUserPin_spec env session.token hmain oldPin
  rw [if_neg huser, hr]
  exact hchecked .user r hcheck

/-- The login of a security officer to a token that was initialised, or one that is refused
before. -/
def SoLoginSound (ta : Ta) : SessionCommand → Prop
  | .login _ client handle (.role .so) _ =>
    match ta.session client handle with
    | some s => s.state.isPublic → (∀ x ∈ ta.siblings client s.token, x.state.isReadWrite) →
        (ta.tokens s.token).dbMain.tokenInitialized
    | none => True
  | _ => True

instance : Decidable (SoLoginSound ta c) := by
  unfold SoLoginSound
  split
  · split <;> infer_instance
  · infer_instance

theorem isPublic_of_not {s : SessionState} (hso : ¬s.isSo) (huser : ¬s.isUser) : s.isPublic := by
  cases s <;> simp_all [SessionState.isSo, SessionState.isUser, SessionState.isPublic]

theorem entryCkLogin_so_ok (h : SessionsInv cfg ta) (hdb : DbInv cfg ta disk)
    (hs : session ∈ ta.sessions)
    (hsound : session.state.isPublic →
      (∀ x ∈ ta.siblings session.client session.token, x.state.isReadWrite) →
      (ta.tokens session.token).dbMain.tokenInitialized)
    (pin : List UInt8) :
    ∃ x, entryCkLogin cfg env ta session (.role .so) pin = .ok x ∧ CommandSpec cfg c ta x := by
  obtain ⟨hlt, -⟩ := h.of_mem hs
  rw [entryCkLogin]
  by_cases hso : session.state.isSo = true
  · exact ⟨_, if_pos hso, .fail h _⟩
  rw [if_neg hso]
  by_cases huser : session.state.isUser = true
  · exact ⟨_, if_pos huser, .fail h _⟩
  rw [if_neg huser]
  by_cases hro : ((ta.siblings session.client session.token).any (!·.state.isReadWrite)) = true
  · exact ⟨_, if_pos hro, .fail h _⟩
  rw [if_neg hro]
  have hrw : ∀ x ∈ ta.siblings session.client session.token, x.state.isReadWrite := by
    simpa using hro
  have hinit := hsound (isPublic_of_not hso huser) hrw
  obtain ⟨⟨rc, main', acts⟩, hr, hcheck⟩ :=
    checkSoPin_spec env session.token (hdb.main hlt) pin hinit
  rw [hr]
  have hset := h.setMain hcheck.spec.initialized
  by_cases hrc : rc = .ok
  · subst hrc
    obtain ⟨ta', heq, hinv⟩ := SessionsInv.sessionLoginSo hset session hrw (by
      rw [Ta.setMain, tokens_modifyToken, if_pos rfl]
      exact hcheck.spec.initialized hinit)
    refine ⟨(reply .ok, ta', acts), ?_, hinv, ?_⟩
    · change (sessionLoginSo (ta.setMain session.token main') session >>=
        fun ta => Except.ok (reply .ok, ta, acts)) = _
      rw [heq]
      rfl
    · refine .setMain hlt hcheck.spec (.inl hcheck.counts) ?_
      rw [sessionLoginSo] at heq
      split_ifs at heq
      cases heq
      rfl
  · refine ⟨(reply rc, ta.setMain session.token main', acts), ?_, hset,
      .setMain hlt hcheck.spec (.inl hcheck.counts) rfl⟩
    cases rc <;> first | rfl | exact absurd rfl hrc

theorem entryCkLogin_user_ok (h : SessionsInv cfg ta) (hdb : DbInv cfg ta disk)
    (hs : session ∈ ta.sessions) (pin : List UInt8) :
    ∃ x, entryCkLogin cfg env ta session (.role .user) pin = .ok x ∧ CommandSpec cfg c ta x := by
  obtain ⟨hlt, -⟩ := h.of_mem hs
  rw [entryCkLogin]
  by_cases hso : session.state.isSo = true
  · exact ⟨_, if_pos hso, .fail h _⟩
  rw [if_neg hso]
  by_cases huser : session.state.isUser = true
  · exact ⟨_, if_pos huser, .fail h _⟩
  rw [if_neg huser]
  obtain ⟨⟨rc, main', acts⟩, hr, hcheck⟩ :=
    checkUserPin_spec env session.token (hdb.main hlt) pin
  rw [hr]
  have hset := h.setMain hcheck.spec.initialized
  by_cases hrc : rc = .ok
  · subst hrc
    exact ⟨_, rfl, hset.sessionLoginUser, .setMain hlt hcheck.spec (.inl hcheck.counts) rfl⟩
  · refine ⟨(reply rc, ta.setMain session.token main', acts), ?_, hset,
      .setMain hlt hcheck.spec (.inl hcheck.counts) rfl⟩
    cases rc <;> first | rfl | exact absurd rfl hrc

theorem entryCkTokenInitialize_ok (env : Env) (h : SessionsInv cfg ta) (hdb : DbInv cfg ta disk)
    (token : ℕ) (pin label : List UInt8) :
    ∃ x, entryCkTokenInitialize cfg env ta token pin label = .ok x ∧
      CommandSpec cfg (.tokenInitialize env token pin label) ta x := by
  rw [entryCkTokenInitialize, initializeFailing]
  by_cases hlt : cfg.tokenCount ≤ token
  · exact ⟨_, if_pos hlt, .fail h _⟩
  rw [if_neg hlt]
  by_cases hlocked : (ta.tokens token).dbMain.so.locked = true
  · exact ⟨_, if_pos hlocked, .fail h _⟩
  rw [if_neg hlocked]
  by_cases hany : ta.sessions.any (·.token = token) = true
  · exact ⟨_, if_pos hany, .fail h _⟩
  rw [if_neg hany]
  replace hlt := Nat.not_le.1 hlt
  replace hlocked := Bool.eq_false_iff.2 hlocked
  have hmain := hdb.main hlt
  cases hauth : authenticateSo cfg env token (ta.tokens token).dbMain pin with
  | error r =>
    obtain ⟨hspec, hcounts⟩ := authenticateSo_error hmain hlocked hauth
    refine ⟨_, rfl, h.setMain hspec.initialized, .setMain hlt hspec ?_ rfl⟩
    refine hcounts.imp_right fun ⟨hinit, hmode, hv, heq⟩ =>
      ⟨⟨env, pin, label, rfl, hlt, hlocked, ?_, hinit, hmode, hv⟩, heq⟩
    simpa using hany
  | ok r =>
    obtain ⟨hspec, hcounts⟩ := authenticateSo_ok hmain hlocked hauth label
    obtain ⟨m, resets, acts⟩ := r
    have hset : (ta.setMain token (m.initToken label)).tokens token =
        { ta.tokens token with dbMain := m.initToken label } := by
      rw [Ta.setMain, tokens_modifyToken, if_pos rfl]
    have hremove :=
      removeObjects_ok token 0 (ta.tokens token).objects (ta.setMain token (m.initToken label))
        (by rw [hset]) (hdb.addresses token hlt) (by rw [hset]; exact hdb.objects token hlt)
      (by rw [hset]; exact hdb.nodup hlt)
    have hcleared : ((ta.setMain token (m.initToken label)).modifyToken token
        fun t => { t with objects := [], dbObjs := [] }).tokens token =
          { ta.tokens token with dbMain := m.initToken label, objects := [], dbObjs := [] } := by
      rw [tokens_modifyToken, if_pos rfl, hset]
    rw [hset] at hremove
    dsimp only
    rw [hset, hremove]
    refine ⟨_, rfl,
      (h.setMain hspec.initialized).modifyToken (fun t => { t with objects := [], dbObjs := [] })
      (fun _ => rfl) (fun _ => rfl) id, ?_⟩
    refine .token token _ _ hlt (fun t ht => ?_) (by rw [hcleared]; exact hspec)
      (.removed (by rw [hcleared]) (by rw [hcleared])) (.inl hcounts)
    rw [tokens_modifyToken, if_neg ht, Ta.setMain, tokens_modifyToken, if_neg ht]

theorem tokens_sessionLogout (h : SessionsInv cfg ta) :
    (sessionLogout ta session).tokens = ta.tokens :=
  (cores_sessionLogout session h.keys).1

theorem run_ok (h : SessionsInv cfg ta) (hdb : DbInv cfg ta disk) (hsound : SoLoginSound ta c) :
    ∃ x, c.run cfg ta = .ok x ∧ CommandSpec cfg c ta x := by
  cases c with
  | registerClient => exact ⟨_, rfl, h.same ⟨rfl, rfl⟩, .nothing fun _ => rfl⟩
  | unregisterClient client =>
    rw [SessionCommand.run, Ta.withClient]
    split_ifs
    · exact ⟨_, rfl, .fail h _⟩
    · exact ⟨_, rfl, h.unregisterClient, .nothing fun t => db_closeCkSessions t _ _⟩
  | openSession client token flags =>
    rw [SessionCommand.run, Ta.withClient]
    split_ifs
    · exact ⟨_, rfl, .fail h _⟩
    · obtain ⟨r, ta', heq, hinv, hsame⟩ := h.entryCkOpenSession client token flags
      exact ⟨_, heq, hinv, .nothing hsame⟩
  | closeSession client handle =>
    exact withSession_ok h fun s hs _ =>
      ⟨_, rfl, h.closeCkSession (List.mem_map_of_mem hs),
        .nothing fun t => db_closeCkSession ta s t⟩
  | closeAllSessions client token =>
    rw [SessionCommand.run, Ta.withClient, entryCkCloseAllSessions]
    split_ifs
    · exact ⟨_, rfl, .fail h _⟩
    · exact ⟨_, rfl, .fail h _⟩
    · exact ⟨_, rfl, h.closeFilter _, .nothing fun t => db_closeCkSessions t _ _⟩
  | tokenInitialize env token pin label => exact entryCkTokenInitialize_ok env h hdb token pin label
  | initPin env client handle pin =>
    exact withSession_ok h fun s hs _ => entryCkInitPin_ok h hdb hs pin
  | setPin env client handle oldPin pin =>
    exact withSession_ok h fun s hs _ => entryCkSetPin_ok h hdb hs oldPin pin
  | login env client handle userType pin =>
    refine withSession_ok h fun s hs hfound => ?_
    have hclient : s.client = client := by
      have := List.find?_some hfound
      rw [Bool.and_eq_true, decide_eq_true_eq] at this
      exact this.1
    cases userType with
    | role r =>
      cases r with
      | so =>
        rw [SoLoginSound, hfound] at hsound
        exact entryCkLogin_so_ok h hdb hs (hclient ▸ hsound) pin
      | user => exact entryCkLogin_user_ok h hdb hs pin
    | contextSpecific => exact ⟨_, rfl, .fail h _⟩
    | other => exact ⟨_, rfl, .fail h _⟩
  | logout client handle =>
    refine withSession_ok h fun s hs _ => ?_
    rw [entryCkLogout]
    split_ifs
    · exact ⟨_, rfl, .fail h _⟩
    · exact ⟨_, rfl, h.sessionLogout, .nothing fun t => by rw [tokens_sessionLogout h]⟩

/-! ## What is stored -/

theorem PinSpec.sound (h : PinSpec cfg token main main' l) : ∀ a ∈ l, a.Sound cfg ∧ a.On token := by
  intro a ha
  rcases h.only a ha with ⟨m, resets, rfl, hm⟩ | ⟨r, rc, rfl⟩
  · exact ⟨hm, rfl⟩
  · exact ⟨trivial, rfl⟩

theorem objsAfter_pinActs (h : PinSpec cfg token main main' l) (objs : Option (List ℕ)) :
    objsAfter t objs l = objs := by
  refine foldl_eq_self fun a ha => ?_
  rcases h.only a ha with ⟨m, resets, rfl, -⟩ | ⟨r, rc, rfl⟩ <;> rfl

section

variable (h : ObjSpec token ta ta' l)
include h

theorem ObjSpec.sound (hdb : DbInv cfg ta disk)
    (lt : token < cfg.tokenCount) : ∀ a ∈ l, a.Sound cfg := by
  cases h with
  | left =>
    intro a ha
    cases ha
  | removed => exact clearActs_sound (hdb.nodup lt)

theorem ObjSpec.only :
    ∀ a ∈ l, (∃ uuids, a = .writeObjs token uuids) ∨ ∃ uuid, a = .deleteFile uuid := by
  cases h with
  | left =>
    intro a ha
    cases ha
  | removed => exact clearActs_only

theorem ObjSpec.not_verify (t : ℕ) (role : Role) (rc : Rc) : Act.verify t role rc ∉ l := by
  intro ha
  rcases h.only _ ha with ⟨uuids, heq⟩ | ⟨uuid, heq⟩ <;> cases heq

theorem ObjSpec.mainAfter_take (t : ℕ) (main : Main) (k : ℕ) :
    mainAfter t main (l.take k) = main := by
  rcases mainAfter_cases t main (l.take k) with heq | ⟨resets, ha⟩
  · exact heq
  · rcases h.only _ (List.mem_of_mem_take ha) with ⟨uuids, heq⟩ | ⟨uuid, heq⟩ <;> cases heq

end

theorem DbSpec.sound (h : DbSpec cfg c ta ta' l)
    (hdb : DbInv cfg ta disk) : ∀ a ∈ l, a.Sound cfg := by
  cases h with
  | nothing same =>
    intro a ha
    cases ha
  | token token pinActs objActs lt others pins objects counts =>
    intro a ha
    rcases List.mem_append.1 ha with ha | ha
    · exact (pins.sound a ha).1
    · exact objects.sound hdb lt a ha

theorem PinSpec.on_append {objActs : List Act} (h : PinSpec cfg token main main' l)
    (h' : ObjSpec token ta ta' objActs) :
    ∀ a ∈ l ++ objActs, a.On token := by
  intro a ha
  rcases List.mem_append.1 ha with ha | ha
  · exact (h.sound a ha).2
  · rcases h'.only a ha with ⟨uuids, rfl⟩ | ⟨uuid, rfl⟩
    · rfl
    · trivial

theorem DbSpec.after (h : DbSpec cfg c ta ta' l) (hdb : DbInv cfg ta disk) :
    mainAfter t (ta.tokens t).dbMain l = (ta'.tokens t).dbMain ∧
      objsAfter t (some (ta.tokens t).dbObjs) l = some (ta'.tokens t).dbObjs ∧
      ((ta'.tokens t).objects = (ta.tokens t).objects ∧ (ta'.tokens t).dbObjs
        = (ta.tokens t).dbObjs ∨
        (ta'.tokens t).objects = [] ∧ (ta'.tokens t).dbObjs = []) := by
  cases h with
  | nothing same =>
    have hsame := same t
    simp only [Token.db, Prod.mk.injEq] at hsame
    exact ⟨hsame.1.symm, congrArg some hsame.2.1.symm, .inl ⟨hsame.2.2, hsame.2.1⟩⟩
  | token token pinActs objActs lt others pins objects counts =>
    by_cases heq : t = token
    · subst heq
      have hmain := objects.mainAfter_take t (ta'.tokens t).dbMain objActs.length
      rw [List.take_length] at hmain
      rw [mainAfter_append, objsAfter_append, pins.after, objsAfter_pinActs pins]
      refine ⟨hmain, ?_⟩
      cases objects with
      | left hobjs hobjects => exact ⟨congrArg some hobjs.symm, .inl ⟨hobjects, hobjs⟩⟩
      | removed hobjs hobjects =>
        refine ⟨?_, .inr ⟨hobjects, hobjs⟩⟩
        rw [objsAfter_clearActs (hdb.objects t lt), hobjs]
    · have hsame := others t heq
      simp only [Token.db, Prod.mk.injEq] at hsame
      have hon := pins.on_append objects
      exact ⟨(mainAfter_of_ne heq hon).trans hsame.1.symm,
        (objsAfter_of_ne heq hon).trans (congrArg some hsame.2.1.symm), .inl ⟨hsame.2.2, hsame.2.1⟩⟩

theorem DbSpec.inv (h : DbSpec cfg c ta ta' l)
    (hdb : DbInv cfg ta disk) : DbInv cfg ta' (disk.acts l) := by
  have hsound := h.sound hdb
  refine ⟨hdb.sound.acts hsound, fun t ht => ?_, fun t ht => ?_, fun t ht => ?_⟩
  · obtain ⟨hmain, hobjs, -⟩ := h.after hdb
    rw [db_acts t l disk hsound, hdb.stored t ht, Option.map_some, hmain, hobjs]
  · obtain ⟨-, -, ⟨hobjects, hobjs⟩ | ⟨hobjects, hobjs⟩⟩ := h.after hdb <;> rw [hobjects, hobjs]
    · exact hdb.objects t ht
    · exact List.Perm.nil
  · obtain ⟨-, -, ⟨hobjects, -⟩ | ⟨hobjects, -⟩⟩ := h.after hdb <;> rw [hobjects]
    · exact hdb.addresses t ht
    · exact List.nodup_nil

/-! ## Steps -/

theorem SessionsInv.of_nil (hsessions : ta.sessions = [])
    (hcounts : ∀ t, (ta.tokens t).sessionCount = 0 ∧ (ta.tokens t).rwSessionCount = 0) :
    SessionsInv cfg ta := by
  have hcores : ta.cores = [] := by rw [Ta.cores, hsessions]; rfl
  refine ⟨⟨?_, ?_, fun t => ?_, fun t => ?_⟩, ?_, ?_, ?_⟩ <;> rw [hcores]
  · exact fun _ h => by cases h
  · exact fun _ h => by cases h
  · exact (hcounts t).1
  · exact (hcounts t).2
  · exact List.nodup_nil
  · exact fun _ h => by cases h
  · exact fun _ h => by cases h

/-- Sessions are coherent, and storage has what memory has. -/
structure WorldInv (cfg : Config) (w : World) : Prop where
  sessions : SessionsInv cfg w.ta
  db : DbInv cfg w.ta w.disk

theorem WorldInv.start (hdisk : disk.Sound cfg) :
    ∃ w, World.start cfg disk = .ok w ∧ WorldInv cfg w ∧
    w.history = (List.range cfg.tokenCount).flatMap (initActs disk) := by
  obtain ⟨ta, heq, hsessions, hcounts, hdb⟩ := pkcs11Init_ok hdisk
  rw [World.start, heq]
  exact ⟨_, rfl, ⟨.of_nil hsessions hcounts, hdb⟩, rfl⟩

/-- The writes that reach storage. -/
def SessionEvent.kept (l : List Act) : SessionEvent → List Act
  | .command _ => l
  | .cut _ k => l.take k

theorem SessionEvent.mem_of_mem_kept {a : Act} (h : a ∈ event.kept l) : a ∈ l := by
  cases event with
  | command c => exact h
  | cut c k => exact List.mem_of_mem_take h

theorem restart_ok (hdb : DbInv cfg ta disk) (hl : ∀ a ∈ l, a.Sound cfg) :
    ∃ ta', pkcs11Init cfg (disk.acts l) = .ok (ta', []) ∧ SessionsInv cfg ta' ∧
      DbInv cfg ta' (disk.acts l) ∧
      ∀ t < cfg.tokenCount, (ta'.tokens t).dbMain = mainAfter t (ta.tokens t).dbMain l ∧
        some (ta'.tokens t).dbObjs = objsAfter t (some (ta.tokens t).dbObjs) l := by
  obtain ⟨ta', heq, hsessions, hcounts, hdb'⟩ := pkcs11Init_ok (hdb.sound.acts hl)
  have hstored : ∀ t < cfg.tokenCount, (disk.acts l).db t = some
      ⟨mainAfter t (ta.tokens t).dbMain l, objsAfter t (some (ta.tokens t).dbObjs) l⟩ := by
    intro t ht
    rw [db_acts t l disk hl, hdb.stored t ht]
    rfl
  have hboot : (List.range cfg.tokenCount).flatMap (initActs (disk.acts l)) = [] := by
    refine List.flatMap_eq_nil_iff.2 fun t ht => ?_
    rw [initActs, hstored t (List.mem_range.1 ht)]
    rfl
  rw [hboot] at heq hdb'
  refine ⟨ta', heq, .of_nil hsessions hcounts, hdb', fun t ht => ?_⟩
  have := (hdb'.stored t ht).symm.trans (hstored t ht)
  rwa [Option.some.injEq, DbFile.mk.injEq] at this

/-- What an event does to the world, with the writes of its command. -/
structure StepSpec (cfg : Config) (w : World) (event : SessionEvent) (w' : World)
    (l : List Act) : Prop where
  db : ∃ ta', DbSpec cfg event.toCommand w.ta ta' l ∧ ∀ t < cfg.tokenCount,
    (ta'.tokens t).dbMain = mainAfter t (w.ta.tokens t).dbMain l
  history : w'.history = w.history ++ event.kept l
  main : ∀ t < cfg.tokenCount,
    (w'.ta.tokens t).dbMain = mainAfter t (w.ta.tokens t).dbMain (event.kept l)
  inv : WorldInv cfg w'

theorem step_of_run {x : Reply × Ta × List Act} (h : WorldInv cfg w)
    (hx : event.toCommand.run cfg w.ta = .ok x) (hspec : CommandSpec cfg event.toCommand w.ta x) :
    ∃ w', event.step cfg w = .ok w' ∧ StepSpec cfg w event w' x.2.2 := by
  obtain ⟨reply, ta', acts⟩ := x
  have hdb : ∃ ta', DbSpec cfg event.toCommand w.ta ta' acts ∧ ∀ t < cfg.tokenCount,
      (ta'.tokens t).dbMain = mainAfter t (w.ta.tokens t).dbMain acts :=
    ⟨ta', hspec.db, fun t _ => (hspec.db.after h.db).1.symm⟩
  rw [SessionEvent.step, hx]
  cases event with
  | command c =>
    exact ⟨_, rfl, hdb, rfl, fun t _ => (hspec.db.after h.db).1.symm, hspec.sessions,
      hspec.db.inv h.db⟩
  | cut c k =>
    have hsound := hspec.db.sound h.db
    obtain ⟨ta'', heq, hsessions, hdb', hstored⟩ :=
      restart_ok (l := acts.take k) h.db fun a ha => hsound a (List.mem_of_mem_take ha)
    change ∃ w', ((pkcs11Init cfg (w.disk.acts (acts.take k))) >>= fun x => Except.ok
      (⟨x.1, (w.disk.acts (acts.take k)).acts x.2, w.history ++ acts.take k ++ x.2⟩ : World))
      = .ok w' ∧ _
    rw [heq]
    exact ⟨_, rfl, hdb, List.append_nil _, fun t ht => (hstored t ht).1, hsessions, hdb'⟩

theorem step_ok (h : WorldInv cfg w) (hsound : SoLoginSound w.ta event.toCommand)
    : ∃ w' l, event.step cfg w = .ok w' ∧ StepSpec cfg w event w' l := by
  obtain ⟨x, hx, hspec⟩ := run_ok h.sessions h.db hsound
  obtain ⟨w', heq, hstep⟩ := step_of_run h hx hspec
  exact ⟨w', _, heq, hstep⟩

/-! ## Coherence -/

/-- The event that is left of one during which calls on the storage fail. -/
def StorageEvent.served : StorageEvent → SessionEvent
  | .event e => e
  | .failing _ c => .command c

/-- No call of `update_persistent_db` fails, and each object is taken off the list of its token. -/
def StorageEvent.Served : StorageEvent → Prop
  | .event _ => True
  | .failing fails _ => fails.updates = [] ∧ Unregisters fails.unregisters

instance (event : StorageEvent) : Decidable event.Served := by
  cases event <;> unfold StorageEvent.Served <;> infer_instance

theorem runFailing_eq {fails : Failures} (hupdates : fails.updates = [])
    (hfails : Unregisters fails.unregisters) :
    c.runFailing cfg fails ta = c.run cfg ta := by
  have hbind : ∀ r : Result, (r >>= fun x => Except.ok x) = r := fun r => by cases r <;> rfl
  unfold SessionCommand.runFailing
  rw [hupdates]
  cases c with
  | tokenInitialize env token pin label =>
    refine (hbind _).trans ?_
    simp only [SessionCommand.run, entryCkTokenInitialize, initializeFailing,
      removeObjects_eq hfails]
  | _ => exact hbind _

theorem StorageEvent.step_eq {event : StorageEvent} (h : event.Served) :
    event.step cfg w = event.served.step cfg w := by
  cases event with
  | event e => rfl
  | failing fails c =>
    rw [StorageEvent.step, runFailing_eq h.1 h.2]
    rfl

/-- The sessions of a client with a token are in one role, tokens count their sessions, and nothing
panics, if no security officer logs in to a token that was never initialised and the storage serves
the commands. -/
theorem sessions_coherent (hdisk : disk.Sound cfg) (events : List StorageEvent)
    (hguard : GuardedFrom (fun w event => SoLoginSound w.ta event.served.toCommand ∧ event.Served)
      (StorageEvent.step cfg) (World.start cfg disk) events) :
    ∃ w, execFrom (StorageEvent.step cfg) (World.start cfg disk) events = .ok w
      ∧ Coherent w.ta := by
  obtain ⟨w₀, hstart, hinv, -⟩ := WorldInv.start hdisk
  rw [hstart] at hguard ⊢
  obtain ⟨w, hrun, hinv'⟩ := exists_exec_of_guarded (P := WorldInv cfg) (fun w event h hs => by
    obtain ⟨w', l, heq, hstep⟩ := step_ok h hs.1
    exact ⟨w', (StorageEvent.step_eq hs.2).trans heq, hstep.inv⟩) hinv hguard
  exact ⟨w, hrun, hinv'.sessions.coherent⟩

/-- One token, with PINs as their own hashes. -/
def plainConfig : Config := ⟨1, false, fun _ _ pin => pin, fun _ => none⟩

/-- A client without an identity, and the same salt always. -/
def plainEnv : Env := ⟨none, none, none, 5⟩

theorem Disk.blank_sound : Disk.blank.Sound cfg := fun _ _ h => by cases h

/-- A token is initialised, its officer sets the PIN of the user, who logs in; the power is cut
while the PIN is changed. -/
def ownerRun : List SessionEvent :=
  [.command (.tokenInitialize plainEnv 0 [1, 2, 3, 4] [7]), .command .registerClient,
    .command (.openSession 0 0 6), .command (.login plainEnv 0 1 (.role .so) [1, 2, 3, 4]),
    .command (.initPin plainEnv 0 1 [5, 6, 7, 8]), .command (.logout 0 1),
    .command (.login plainEnv 0 1 (.role .user) [5, 6, 7, 8]), .command (.openSession 0 0 4),
    .cut (.setPin plainEnv 0 1 [5, 6, 7, 8] [9, 9, 9, 9]) 3, .command .registerClient,
    .command (.openSession 0 0 6)]

theorem sessions_coherent_ownerRun :
    ∃ w, execFrom (StorageEvent.step plainConfig) (World.start plainConfig .blank)
      (.failing ⟨[], [⟨0, false, 1⟩]⟩ (.tokenInitialize plainEnv 0 [1, 2, 3, 4] [8])
        :: ownerRun.map .event) = .ok w ∧
        Coherent w.ta :=
  sessions_coherent Disk.blank_sound _ (by decide +kernel)

/-- A security officer who logs in to a token that was never initialised reaches the assertion of
`check_so_pin`, and a write of the database that fails the panic of `update_persistent_db`. -/
theorem so_login_asserts :
    execFrom (StorageEvent.step plainConfig) (World.start plainConfig .blank)
      [.event (.command .registerClient), .event (.command (.openSession 0 0 6)),
        .event (.command (.login plainEnv 0 1 (.role .so) [1, 2, 3, 4]))] = .error .assertion ∧
    execFrom (StorageEvent.step plainConfig) (World.start plainConfig .blank)
      [.failing ⟨[0], []⟩ (.tokenInitialize plainEnv 0 [1, 2, 3, 4] [8])] = .error .teePanic :=
  ⟨eq_error_of_decide (by decide +kernel), eq_error_of_decide (by decide +kernel)⟩

/-! ## Counters -/

/-- The wrong PINs since the last one that was right or set. -/
def wrongPins (token : ℕ) (role : Role) (history : List Act) : ℕ :=
  (tallyAll token role (0, 0) history).2

theorem tally_snd {n n' w : ℕ} (a : Act) :
    (a.tally token role (n, w)).2 = (a.tally token role (n', w)).2 := by
  cases a with
  | writeMain t m resets =>
    simp only [Act.tally]
    split_ifs <;> rfl
  | verify t r rc =>
    simp only [Act.tally]
    split_ifs
    · cases rc <;> rfl
    · rfl
  | _ => rfl

theorem tallyAll_snd : ∀ (l : List Act) (x y : ℕ × ℕ), x.2 = y.2 →
    (tallyAll token role x l).2 = (tallyAll token role y l).2
  | [], _, _, h => h
  | a :: l, (n, w), (n', w'), h => by
    cases h
    exact tallyAll_snd l _ _ (tally_snd a)

theorem wrongPins_append {history : List Act} (n : ℕ) :
    wrongPins token role (history ++ l)
      = (tallyAll token role (n, wrongPins token role history) l).2 := by
  rw [wrongPins, tallyAll, List.foldl_append]
  exact tallyAll_snd l _ _ rfl

theorem tallyAll_of_ne (ht : t ≠ token) (h : ∀ a ∈ l, a.On token) : tallyAll t role x l = x := by
  refine foldl_eq_self fun a ha => ?_
  cases a with
  | writeMain t' | verify t' =>
    have hne : t' ≠ t := fun heq => ht (heq.symm.trans (h _ ha))
    simp only [Act.tally, hne, false_and, ↓reduceIte]
  | _ => rfl

theorem counts_clearActs (hx : x.2 ≤ x.1) : ∀ (objs : List Object) (uuids : List ℕ),
    Counts t role x (clearActs token objs uuids)
  | [], _ => hx
  | obj :: objs, uuids => ⟨hx, hx, counts_clearActs hx objs (uuids.erase obj.uuid)⟩

theorem tallyAll_initActs : ∀ (tokens : List ℕ),
    tallyAll t role x (tokens.flatMap (initActs disk)) = x
  | [] => rfl
  | token :: tokens => by
    rw [List.flatMap_cons, tallyAll, List.foldl_append, initActs]
    split_ifs <;> exact tallyAll_initActs tokens

/-- No initialisation is cut between a wrong PIN and its count. -/
def SessionEvent.Counted (cfg : Config) (w : World) : SessionEvent → Prop
  | .cut (.tokenInitialize env token pin _) 1 => ¬WrongSoPin cfg env w.ta token pin
  | _ => True

instance {w : World} {event : SessionEvent} : Decidable (event.Counted cfg w) := by
  unfold SessionEvent.Counted
  split <;> infer_instance

theorem StepSpec.counted (h : StepSpec cfg w event w' l) (hc : event.Counted cfg w)
    (ht : t < cfg.tokenCount) (role : Role)
    (hw : wrongPins t role w.history ≤ ((w.ta.tokens t).dbMain.pin role).count) :
    wrongPins t role w'.history ≤ ((w'.ta.tokens t).dbMain.pin role).count := by
  rw [h.main t ht, h.history, wrongPins_append ((w.ta.tokens t).dbMain.pin role).count,
    ← tallyAll_fst t role _ _ (wrongPins t role w.history)]
  generalize wrongPins t role w.history = n at hw
  have hkept : ∀ {l}, Counts t role (((w.ta.tokens t).dbMain.pin role).count, n) l →
      (tallyAll t role (((w.ta.tokens t).dbMain.pin role).count, n) (event.kept l)).2 ≤
        (tallyAll t role (((w.ta.tokens t).dbMain.pin role).count, n) (event.kept l)).1 := by
    intro l hl
    cases event with
    | command c => exact hl.last
    | cut c k => exact hl.take k
  obtain ⟨ta', hdb, -⟩ := h.db
  cases hdb with
  | nothing same => exact hkept hw
  | token token pinActs objActs lt others pins objects counts =>
    by_cases heq : t = token
    · subst heq
      rcases counts with hall | ⟨⟨env, pin, label, hcommand, hwrong⟩, rfl, rfl⟩
      · refine hkept ((hall role n hw).append ?_)
        cases objects with
        | left => exact (hall role n hw).last
        | removed => exact counts_clearActs (hall role n hw).last _ _
      · -- The wrong PIN of `entry_ck_token_initialize` is counted by the second of its two acts.
        have hfull : ∀ k, 2 ≤ k → (tallyAll t role (((w.ta.tokens t).dbMain.pin role).count, n)
            (([.verify t .so .pinIncorrect, .writeMain t { (w.ta.tokens t).dbMain with
              so := (w.ta.tokens t).dbMain.so.preset PKCS11_TOKEN_SO_PIN_COUNT_MAX } []] :
              List Act).take k)).2 ≤
            (tallyAll t role (((w.ta.tokens t).dbMain.pin role).count, n)
            (([.verify t .so .pinIncorrect, .writeMain t { (w.ta.tokens t).dbMain with
              so := (w.ta.tokens t).dbMain.so.preset PKCS11_TOKEN_SO_PIN_COUNT_MAX } []] :
              List Act).take k)).1 := by
          intro k hk
          rw [List.take_of_length_le (by simpa using hk)]
          cases role with
          | so =>
            have hw' : n ≤ (w.ta.tokens t).dbMain.so.count := hw
            simp [tallyAll, Act.tally, Main.pin, Pin.preset, hw']
          | user => simpa [tallyAll, Act.tally, Main.pin] using hw
        rw [List.append_nil]
        cases event with
        | command c => exact hfull 2 (Nat.le_refl 2)
        | cut c k =>
          have hcommand' : c = .tokenInitialize env t pin label := hcommand
          subst hcommand'
          rcases k with _ | _ | k
          · exact hw
          · exact absurd hwrong hc
          · exact hfull (k + 2) (by omega)
    · have hon := pins.on_append objects
      rw [tallyAll_of_ne heq fun a ha => hon a (event.mem_of_mem_kept ha)]
      exact hw

theorem run_of_not_sound (cfg : Config) (hs : ¬SoLoginSound ta c) :
    c.run cfg ta = .error .assertion ∨ c.run cfg ta = ta.fail .argumentsBad := by
  unfold SoLoginSound at hs
  split at hs
  · rename_i env client handle pin
    cases hfound : ta.session client handle with
    | none =>
      rw [hfound] at hs
      exact absurd trivial hs
    | some s =>
      rw [hfound] at hs
      have hmatch := List.find?_some hfound
      rw [Bool.and_eq_true, decide_eq_true_eq] at hmatch
      simp only [Classical.not_imp, Bool.not_eq_true] at hs
      obtain ⟨hpublic, hrw, hinit⟩ := hs
      rw [SessionCommand.run, Ta.withSession, Ta.withClient, hfound]
      split_ifs
      · exact .inr rfl
      have hso : s.state.isSo = false ∧ s.state.isUser = false := by
        cases hstate : s.state <;> rw [hstate] at hpublic
          <;> first | exact ⟨rfl, rfl⟩ | cases hpublic
      have hany : (ta.siblings s.client s.token).any (!·.state.isReadWrite) = false := by
        rw [List.any_eq_false, hmatch.1]
        intro x hx
        simp [hrw x hx]
      left
      simp only [entryCkLogin, hso, hany, Bool.false_eq_true, ↓reduceIte, checkSoPin, hinit,
        Bool.not_false]
      rfl
  · exact absurd trivial hs

theorem stepSpec_of_ok (h : WorldInv cfg w) (hstep : event.step cfg w = .ok w') :
    ∃ l, StepSpec cfg w event w' l := by
  have hrun : ∃ x, event.toCommand.run cfg w.ta = .ok x
      ∧ CommandSpec cfg event.toCommand w.ta x := by
    by_cases hs : SoLoginSound w.ta event.toCommand
    · exact run_ok h.sessions h.db hs
    · rcases run_of_not_sound cfg hs with heq | heq
      · rw [SessionEvent.step, heq] at hstep
        cases hstep
      · exact ⟨_, heq, .fail h.sessions _⟩
  obtain ⟨x, hx, hspec⟩ := hrun
  obtain ⟨w'', heq, hspec'⟩ := step_of_run h hx hspec
  cases hstep.symm.trans heq
  exact ⟨_, hspec'⟩

theorem SessionEvent.exists_take (event : SessionEvent)
    (l : List Act) : ∃ k, event.kept l = l.take k := by
  cases event with
  | command c => exact ⟨l.length, List.take_length.symm⟩
  | cut c k => exact ⟨k, rfl⟩

theorem StepSpec.locked (h : StepSpec cfg w event w' l) (ht : t < cfg.tokenCount) (role : Role)
    (hmax : ((w.ta.tokens t).dbMain.pin role).count = role.pinCountMax) :
    (∀ rc, Act.verify t role rc ∉ event.kept l) ∧
      (((w'.ta.tokens t).dbMain.pin role).count = role.pinCountMax ∨
        ∃ m resets, Act.writeMain t m resets ∈ event.kept l ∧ role ∈ resets) := by
  obtain ⟨k, hk⟩ := event.exists_take l
  rw [h.main t ht, hk]
  obtain ⟨ta', hdb, -⟩ := h.db
  cases hdb with
  | nothing same =>
    rw [List.take_nil]
    exact ⟨fun _ hv => (by cases hv), .inl hmax⟩
  | token token pinActs objActs lt others pins objects counts =>
    by_cases heq : t = token
    · subst heq
      have hverify : ∀ rc, Act.verify t role rc ∉ pinActs := fun rc hv =>
        Nat.ne_of_lt (pins.unlocked role rc hv) hmax
      refine ⟨fun rc hv => ?_, ?_⟩
      · rcases List.mem_append.1 (List.mem_of_mem_take hv) with hv | hv
        · exact hverify rc hv
        · exact objects.not_verify t role rc hv
      · rw [or_iff_not_imp_right]
        intro hreset
        push Not at hreset
        rw [List.take_append, mainAfter_append, objects.mainAfter_take]
        rw [List.take_append] at hreset
        exact (pins.kept role k hverify
          fun m resets hm => hreset m resets (List.mem_append_left _ hm)).trans hmax
    · have hon : ∀ a ∈ (pinActs ++ objActs).take k, a.On token := fun a ha =>
        pins.on_append objects a (List.mem_of_mem_take ha)
      rw [mainAfter_of_ne heq hon]
      exact ⟨fun rc hv => heq (hon _ hv), .inl hmax⟩

theorem StepSpec.verified (h : StepSpec cfg w (.command c) w' l) (ht : t < cfg.tokenCount)
    (role : Role) (hv : Act.verify t role .ok ∈ l) :
    ((w'.ta.tokens t).dbMain.pin role).count = 0
      ∧ ((w'.ta.tokens t).dbMain.pin role).InStep role.pinCountMax := by
  obtain ⟨ta', hdb, hmain⟩ := h.db
  rw [(h.main t ht).trans (hmain t ht).symm]
  cases hdb with
  | nothing same => cases hv
  | token token pinActs objActs lt others pins objects counts =>
    have heq : t = token := pins.on_append objects _ hv
    subst heq
    rcases List.mem_append.1 hv with hv | hv
    · exact pins.verified role hv
    · exact absurd hv (objects.not_verify t role .ok)

/-- Wrong PINs are at most as many as the counter in storage says, in every run in which no power
cut comes after `entry_ck_token_initialize` has found a PIN wrong and before that is stored. From
there on a PIN whose counter is at the maximum is not verified until it is set, and a PIN that is
found right leaves its counter at 0 and its flags clear. -/
theorem wrong_pins_counted (hdisk : disk.Sound cfg) {events : List SessionEvent} {w : World}
    (hguard : GuardedFrom (fun w event => event.Counted cfg w) (SessionEvent.step cfg)
      (World.start cfg disk) events)
    (hrun : execFrom (SessionEvent.step cfg) (World.start cfg disk) events = .ok w)
    (ht : t < cfg.tokenCount) (role : Role) :
    wrongPins t role w.history ≤ ((w.ta.tokens t).dbMain.pin role).count ∧
      ((w.ta.tokens t).dbMain.pin role).count ≤ role.pinCountMax ∧
      ∀ (event : SessionEvent) (w' : World), event.step cfg w = .ok w' →
        ∃ acts, w'.history = w.history ++ acts ∧
        (((w.ta.tokens t).dbMain.pin role).count = role.pinCountMax →
          (∀ rc, Act.verify t role rc ∉ acts) ∧
          (((w'.ta.tokens t).dbMain.pin role).count = role.pinCountMax ∨
            ∃ main resets, Act.writeMain t main resets ∈ acts ∧ role ∈ resets)) ∧
        ((∃ c, event = .command c) → Act.verify t role .ok ∈ acts →
          ((w'.ta.tokens t).dbMain.pin role).count = 0 ∧
            ((w'.ta.tokens t).dbMain.pin role).countLow = false ∧
            ((w'.ta.tokens t).dbMain.pin role).finalTry = false
              ∧ ((w'.ta.tokens t).dbMain.pin role).locked = false) := by
  obtain ⟨w₀, hstart, hinv, hhistory⟩ := WorldInv.start hdisk
  rw [hstart] at hguard hrun
  obtain ⟨hinv', hcounts⟩ : WorldInv cfg w ∧ wrongPins t role w.history
    ≤ ((w.ta.tokens t).dbMain.pin role).count := by
    refine exec_invariant (P := fun w => WorldInv cfg w ∧
      wrongPins t role w.history ≤ ((w.ta.tokens t).dbMain.pin role).count) ?_
      ⟨hinv, ?_⟩ hguard hrun
    · intro w event w' ⟨hinv, hw⟩ hc hstep
      obtain ⟨l, hspec⟩ := stepSpec_of_ok hinv hstep
      exact ⟨hspec.inv, hspec.counted hc ht role hw⟩
    · rw [hhistory, wrongPins, tallyAll_initActs]
      exact Nat.zero_le _
  refine ⟨hcounts, ?_, fun event w' hstep => ?_⟩
  · have hmain := hinv'.db.main ht
    cases role with
    | so => exact hmain.so.le
    | user => exact hmain.le
  · obtain ⟨l, hspec⟩ := stepSpec_of_ok hinv' hstep
    refine ⟨event.kept l, hspec.history, hspec.locked ht role, ?_⟩
    rintro ⟨c, rfl⟩ hv
    obtain ⟨hcount, hstep'⟩ := hspec.verified ht role hv
    refine ⟨hcount, ?_, ?_, ?_⟩
    · rw [hstep'.countLow, hcount]
      rfl
    · rw [hstep'.finalTry, hcount]
      cases role <;> rfl
    · rw [hstep'.locked, hcount]
      cases role <;> rfl

/-- Both PINs are set, and each is guessed wrong once. -/
def guessRun : List SessionEvent :=
  [.command (.tokenInitialize plainEnv 0 [1, 2, 3, 4] [7]), .command .registerClient,
    .command (.openSession 0 0 6), .command (.login plainEnv 0 1 (.role .so) [1, 2, 3, 4]),
    .command (.initPin plainEnv 0 1 [5, 6, 7, 8]), .command (.logout 0 1),
    .command (.login plainEnv 0 1 (.role .user) [5, 6, 7, 9]), .command (.closeSession 0 1),
    .cut (.tokenInitialize plainEnv 0 [1, 2, 3, 5] [7]) 2]

theorem wrong_pins_counted_guessRun :
    ∃ w, execFrom (SessionEvent.step plainConfig) (World.start plainConfig .blank) guessRun
      = .ok w ∧
      wrongPins 0 .user w.history = 1 ∧ wrongPins 0 .so w.history = 1 ∧
      ∀ role, wrongPins 0 role w.history ≤ ((w.ta.tokens 0).dbMain.pin role).count ∧
        ((w.ta.tokens 0).dbMain.pin role).count ≤ role.pinCountMax := by
  obtain ⟨w, hrun, huser, hso⟩ := exists_ok_of_decide
    (r := execFrom (SessionEvent.step plainConfig) (World.start plainConfig .blank) guessRun)
    (P := fun w => wrongPins 0 .user w.history = 1 ∧ wrongPins 0 .so w.history = 1)
    (by decide +kernel)
  refine ⟨w, hrun, huser, hso, fun role => ?_⟩
  obtain ⟨hle, hmax, -⟩ :=
    wrong_pins_counted Disk.blank_sound (by decide +kernel) hrun (t := 0) (by decide) role
  exact ⟨hle, hmax⟩

/-- The PIN of an officer is guessed as often as the power is cut: eight wrong PINs, and a counter
of 0. -/
theorem wrong_pins_not_counted :
    ∃ w, execFrom (SessionEvent.step plainConfig) (World.start plainConfig .blank)
        (.command (.tokenInitialize plainEnv 0 [1, 2, 3, 4] [7]) ::
          List.replicate 8 (.cut (.tokenInitialize plainEnv 0 [1, 2, 3, 5] [7]) 1)) = .ok w ∧
      wrongPins 0 .so w.history = 8 ∧ PKCS11_TOKEN_SO_PIN_COUNT_MAX < 8 ∧
      ((w.ta.tokens 0).dbMain.pin .so).count = 0 :=
  exists_ok_of_decide (by decide +kernel)

/-- Whatever was commanded and wherever the power was cut, a restart finds the tokens as they are in
memory. -/
theorem restart_restores (hdisk : disk.Sound cfg) (events : List SessionEvent) {w : World}
    (hrun : execFrom (SessionEvent.step cfg) (World.start cfg disk) events = .ok w) :
    ∃ ta, pkcs11Init cfg w.disk = .ok (ta, []) ∧ ∀ t < cfg.tokenCount,
      (ta.tokens t).dbMain = (w.ta.tokens t).dbMain ∧
        ((ta.tokens t).objects.map (·.uuid)).Perm ((w.ta.tokens t).objects.map (·.uuid)) := by
  obtain ⟨w₀, hstart, hinv, -⟩ := WorldInv.start hdisk
  rw [hstart] at hrun
  have hw : WorldInv cfg w := by
    refine exec_invariant (fun w event w' h _ hstep => ?_) hinv
      (guarded_of_forall fun _ _ => trivial) hrun
    obtain ⟨l, hspec⟩ := stepSpec_of_ok h hstep
    exact hspec.inv
  obtain ⟨ta, heq, -, hdb, hsame⟩ := restart_ok (l := []) hw.db (by simp)
  refine ⟨ta, heq, fun t ht => ⟨(hsame t ht).1, (hdb.objects t ht).trans ?_⟩⟩
  rw [Option.some.inj (hsame t ht).2]
  exact (hw.db.objects t ht).symm

theorem restart_restores_ownerRun :
    ∃ w ta,
    execFrom (SessionEvent.step plainConfig) (World.start plainConfig .blank) ownerRun = .ok w ∧
    pkcs11Init plainConfig w.disk = .ok (ta, []) ∧
    (ta.tokens 0).dbMain = (w.ta.tokens 0).dbMain := by
  obtain ⟨w, hrun, -⟩ := exists_ok_of_decide
    (r := execFrom (SessionEvent.step plainConfig) (World.start plainConfig .blank) ownerRun)
    (P := fun _ => True) (by decide +kernel)
  obtain ⟨ta, hinit, htokens⟩ := restart_restores Disk.blank_sound ownerRun hrun
  exact ⟨w, ta, hrun, hinit, (htokens 0 (by decide)).1⟩

end Optee.Pkcs11
