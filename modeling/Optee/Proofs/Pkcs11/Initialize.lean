import Optee.Proofs.Pkcs11.SessionRun

/-!
# Power cuts while a token is initialised

What a power cut in `entry_ck_token_initialize` leaves. The database of a new token is created in
three writes, after the first of which it is too short to be read (`initialize_cut`).
-/

namespace Optee.Pkcs11

variable {cfg : Config} {env : Env} {disk : Disk} {w : World} {token t k : ℕ}
  {pin label : List UInt8} {l : List Act} {main m : Main}

/-! ## The acts of an initialisation -/

/-- The security officer is found to be who they say, or sets the PIN of a new token. -/
def SoAuthenticated (cfg : Config) (env : Env) (main : Main) (pin : List UInt8) : Prop :=
  if main.tokenInitialized then
    if cfg.authTeeIdentity && main.protectedAuthenticationPath then
      env.identity.isSome = true ∧ ∀ identity ∈ env.identity, main.so.secret.take identity.length
        = identity
    else env.verifyError = none ∧ cfg.digest .so main.so.salt pin = main.so.secret
  else if cfg.authTeeIdentity && pin = [] then env.identity.isSome = true
  else PKCS11_TOKEN_PIN_SIZE_MIN ≤ pin.length ∧ pin.length ≤ PKCS11_TOKEN_PIN_SIZE_MAX
    ∧ env.hashError = none

/-- The writes before the token is cleared. -/
def verifications (cfg : Config) (main : Main) : ℕ :=
  if main.tokenInitialized && !(cfg.authTeeIdentity && main.protectedAuthenticationPath) then 1
  else 0

/-- The command goes as far as to clear the token. -/
def Reinitialises (cfg : Config) (env : Env) (ta : Ta) (token : ℕ) (pin : List UInt8) : Prop :=
  (ta.tokens token).dbMain.so.locked = false ∧ (∀ s ∈ ta.sessions, s.token ≠ token) ∧
    SoAuthenticated cfg env (ta.tokens token).dbMain pin

theorem authenticateSo_authenticated (token : ℕ) (h : SoAuthenticated cfg env main pin) :
    ∃ m resets acts, authenticateSo cfg env token main pin = .ok (m, resets, acts) ∧
      acts.length = verifications cfg main ∧ (∀ a ∈ acts, ∃ rc, a = .verify token .so rc) ∧
      (main.tokenInitialized → m = main) := by
  rw [SoAuthenticated] at h
  rw [authenticateSo]
  split_ifs at h with h1 h2 h3
  · obtain ⟨hsome, hidentity⟩ := h
    obtain ⟨identity, hi⟩ := Option.isSome_iff_exists.1 hsome
    have hv : verifyIdentityAuth env main .so = .ok := by
      rw [verifyIdentityAuth, hi]
      exact if_pos (hidentity identity hi)
    rw [if_pos h1, if_pos h2, hv]
    exact ⟨_, _, _, rfl, by simp [verifications, h2], fun _ ha => (by cases ha), fun _ => rfl⟩
  · have hv : verifyPin cfg env .so pin main.so.salt main.so.secret = .ok := by
      rw [verifyPin, h.1]
      exact if_pos h.2
    rw [if_pos h1, if_neg h2, hv]
    refine ⟨_, _, _, rfl, ?_, fun _ ha => ⟨_, List.mem_singleton.1 ha⟩, fun _ => rfl⟩
    rw [verifications, h1, Bool.eq_false_iff.2 h2]
    rfl
  · obtain ⟨identity, hi⟩ := Option.isSome_iff_exists.1 h
    rw [if_neg h1, if_pos h3, setupSoIdentityAuthFromClient, hi]
    exact ⟨_, _, _, rfl, by simp [verifications, h1], fun _ ha => (by cases ha),
      fun hc => absurd hc h1⟩
  · obtain ⟨hmin, hmax, herror⟩ := h
    rw [if_neg h1, if_neg h3, if_neg (by omega), herror]
    exact ⟨_, _, _, rfl, by simp [verifications, h1], fun _ ha => (by cases ha),
      fun hc => absurd hc h1⟩

theorem authenticateSo_refused (token : ℕ) (h : ¬SoAuthenticated cfg env main pin) :
    ∃ r, authenticateSo cfg env token main pin = .error r ∧
      ∀ a ∈ r.2.2, (∃ rc, a = .verify token .so rc) ∨
      a = .writeMain token { main with so := main.so.preset PKCS11_TOKEN_SO_PIN_COUNT_MAX } [] := by
  rw [SoAuthenticated] at h
  rw [authenticateSo]
  split_ifs at h with h1 h2 h3
  · rw [if_pos h1, if_pos h2, verifyIdentityAuth]
    cases hi : env.identity with
    | none => exact ⟨_, rfl, fun _ ha => (by cases ha)⟩
    | some identity =>
      have hne : ¬(main.pin .so).secret.take identity.length = identity := by
        intro heq
        refine h ⟨by rw [hi]; rfl, fun i hmem => ?_⟩
        cases hi.symm.trans hmem
        exact heq
      simp only [hne, ↓reduceIte]
      exact ⟨_, rfl, fun _ ha => (by cases ha)⟩
  · rw [if_pos h1, if_neg h2, verifyPin]
    cases he : env.verifyError with
    | none =>
      have hne : ¬cfg.digest .so main.so.salt pin = main.so.secret := fun heq => h ⟨he, heq⟩
      simp only [hne, ↓reduceIte]
      refine ⟨_, rfl, fun a ha => ?_⟩
      simp only [List.mem_cons, List.not_mem_nil, or_false] at ha
      exact ha.imp_left fun heq => ⟨_, heq⟩
    | some e =>
      cases e <;> exact ⟨_, rfl, fun _ ha => .inl ⟨_, List.mem_singleton.1 ha⟩⟩
  · rw [Bool.not_eq_true, Option.isSome_eq_false_iff, Option.isNone_iff_eq_none] at h
    rw [if_neg h1, if_pos h3, setupSoIdentityAuthFromClient, h]
    exact ⟨_, rfl, fun _ ha => (by cases ha)⟩
  · rw [if_neg h1, if_neg h3]
    by_cases hlen : pin.length < PKCS11_TOKEN_PIN_SIZE_MIN ∨ PKCS11_TOKEN_PIN_SIZE_MAX < pin.length
    · rw [if_pos hlen]
      exact ⟨_, rfl, fun _ ha => (by cases ha)⟩
    · rw [if_neg hlen]
      cases he : env.hashError with
      | none =>
        rw [not_or, Nat.not_lt, Nat.not_lt] at hlen
        exact absurd ⟨hlen.1, hlen.2, he⟩ h
      | some e => exact ⟨_, rfl, fun _ ha => (by cases ha)⟩

theorem initialize_acts (hdb : DbInv cfg w.ta disk) (ht : token < cfg.tokenCount)
    {x : Reply × Ta × List Act} (hx : entryCkTokenInitialize cfg env w.ta token pin label = .ok x) :
    (Reinitialises cfg env w.ta token pin ∧ ∃ m auth resets,
      x.2.2 = auth ++ .writeMain token (m.initToken label) resets ::
        clearActs token (w.ta.tokens token).objects (w.ta.tokens token).dbObjs ∧
      auth.length = verifications cfg (w.ta.tokens token).dbMain ∧
        (∀ a ∈ auth, ∃ rc, a = .verify token .so rc) ∧
      ((w.ta.tokens token).dbMain.tokenInitialized → m = (w.ta.tokens token).dbMain)) ∨
    ¬Reinitialises cfg env w.ta token pin ∧ ∀ a ∈ x.2.2, (∃ rc, a = .verify token .so rc) ∨
      a = .writeMain token { (w.ta.tokens token).dbMain with
        so := (w.ta.tokens token).dbMain.so.preset PKCS11_TOKEN_SO_PIN_COUNT_MAX } [] := by
  rw [entryCkTokenInitialize, initializeFailing, if_neg (Nat.not_le.2 ht)] at hx
  dsimp only at hx
  by_cases hlocked : (w.ta.tokens token).dbMain.so.locked = true
  · rw [if_pos hlocked] at hx
    cases hx
    exact .inr ⟨fun h => Bool.false_ne_true (h.1.symm.trans hlocked), fun _ ha => (by cases ha)⟩
  rw [if_neg hlocked] at hx
  by_cases hany : w.ta.sessions.any (·.token = token) = true
  · rw [if_pos hany] at hx
    cases hx
    refine .inr ⟨fun h => ?_, fun _ ha => by cases ha⟩
    obtain ⟨s, hs, htoken⟩ := List.any_eq_true.1 hany
    exact h.2.1 s hs (of_decide_eq_true htoken)
  rw [if_neg hany] at hx
  by_cases hauth : SoAuthenticated cfg env (w.ta.tokens token).dbMain pin
  · obtain ⟨m, resets, acts, heq, hlen, hverify, hmain⟩ := authenticateSo_authenticated token hauth
    have hset : (w.ta.setMain token (m.initToken label)).tokens token =
        { w.ta.tokens token with dbMain := m.initToken label } := by
      rw [Ta.setMain, tokens_modifyToken, if_pos rfl]
    have hremove :=
      removeObjects_ok token 0 (w.ta.tokens token).objects (w.ta.setMain token (m.initToken label))
        (by rw [hset]) (hdb.addresses token ht) (by rw [hset]; exact hdb.objects token ht)
      (by rw [hset]; exact hdb.nodup ht)
    rw [hset] at hremove
    rw [heq] at hx
    dsimp only at hx
    rw [hset, hremove] at hx
    cases hx
    refine .inl ⟨⟨Bool.eq_false_iff.2 hlocked, by simpa using hany, hauth⟩, m, acts,
      .user :: resets, ?_, hlen, hverify, hmain⟩
    rw [List.append_assoc]
    rfl
  · obtain ⟨r, heq, honly⟩ := authenticateSo_refused token hauth
    rw [heq] at hx
    cases hx
    exact .inr ⟨fun h => hauth h.2.2, honly⟩

/-! ## Power cuts during the command -/

theorem clearActs_take (token : ℕ) :
    ∀ (objs : List Object) (uuids : List ℕ) (k : ℕ),
    (objs.map (·.uuid)).Perm uuids → uuids.Nodup →
    ∃ uuids', objsAfter token (some uuids) ((clearActs token objs uuids).take k) = some uuids' ∧
      uuids'.Sublist uuids ∧ uuids'.length = objs.length - (k + 1) / 2 ∧
      ∀ uuid, Act.deleteFile uuid ∈ (clearActs token objs uuids).take k →
        uuid ∈ uuids ∧ uuid ∉ uuids'
  | [], uuids, k, hperm, _ => by
    cases hperm.symm.eq_nil
    refine ⟨[], by simp [clearActs, objsAfter], List.Sublist.refl _, by simp, fun uuid h => ?_⟩
    simp [clearActs] at h
  | obj :: objs, uuids, 0, hperm, _ => by
    refine ⟨uuids, rfl, List.Sublist.refl _, ?_, fun uuid h => by cases h⟩
    rw [← hperm.length_eq, List.length_map]
    rfl
  | obj :: objs, uuids, 1, hperm, _ => by
    have hmem : obj.uuid ∈ uuids := hperm.subset List.mem_cons_self
    refine ⟨uuids.erase obj.uuid, ?_, List.erase_sublist, ?_, fun uuid h => ?_⟩
    · simp [clearActs, objsAfter]
    · rw [List.length_erase_of_mem hmem, ← hperm.length_eq, List.length_map]
    · simp [clearActs] at h
  | obj :: objs, uuids, k + 2, hperm, hnodup => by
    have hmem : obj.uuid ∈ uuids := hperm.subset List.mem_cons_self
    have hrest : (objs.map (·.uuid)).Perm (uuids.erase obj.uuid) := by
      simpa using hperm.erase obj.uuid
    obtain ⟨uuids', heq, hsub, hlen, hfiles⟩ := clearActs_take token objs _ k hrest (hnodup.erase _)
    refine ⟨uuids', ?_, hsub.trans List.erase_sublist, ?_, fun uuid h => ?_⟩
    · refine Eq.trans ?_ heq
      rw [clearActs, List.take_succ_cons, List.take_succ_cons, objsAfter, List.foldl_cons,
        List.foldl_cons]
      simp only [↓reduceIte]
      rfl
    · rw [hlen, List.length_cons]
      omega
    · rw [clearActs, List.take_succ_cons, List.take_succ_cons, List.mem_cons, List.mem_cons] at h
      rcases h with h | h | h
      · cases h
      · cases h
        exact ⟨hmem, fun hin => hnodup.not_mem_erase (hsub.subset hin)⟩
      · obtain ⟨hin, hnot⟩ := hfiles uuid h
        exact ⟨List.mem_of_mem_erase hin, hnot⟩

theorem lookup_files_acts {uuid : ℕ} (h : (disk.files.lookup uuid).isSome)
    (hl : Act.deleteFile uuid ∉ l) :
    ((disk.acts l).files.lookup uuid).isSome := by
  induction l generalizing disk with
  | nil => exact h
  | cons a l ih =>
    refine ih ?_ fun hmem => hl (List.mem_cons_of_mem a hmem)
    cases a with
    | createFile u attrs =>
      simp only [Disk.act, Heap.lookup_cons]
      split_ifs <;> first | rfl | exact h
    | writeFile u attrs =>
      simp only [Disk.act, Heap.lookup_modify]
      split_ifs <;> simpa using h
    | deleteFile u =>
      have hne : uuid ≠ u := fun heq => hl (heq ▸ List.mem_cons_self)
      simpa [Disk.act, Heap.lookup_remove, hne] using h
    | _ => exact h

/-- Every object listed has its file, and no two tokens list the same. -/
def FilesInv (cfg : Config) (w : World) : Prop :=
  (∀ t < cfg.tokenCount, ∀ uuid ∈ (w.ta.tokens t).dbObjs, (w.disk.files.lookup uuid).isSome) ∧
    ∀ t < cfg.tokenCount, ∀ t' < cfg.tokenCount, t ≠ t' → ∀ uuid ∈ (w.ta.tokens t).dbObjs,
      uuid ∉ (w.ta.tokens t').dbObjs

/-- The token is as before, but for a counter of the SO PIN that starts again. -/
def SameOwner (before after : Main) : Prop :=
  after = before ∨ after = { before with so := before.so.preset PKCS11_TOKEN_SO_PIN_COUNT_MAX }

/-- The TA starts, the token is the one it was or none of its objects is listed, and objects that
are listed have their files. -/
def CutSafe (cfg : Config) (ta : Ta) (token : ℕ) (disk : Disk) : Prop :=
  ∃ ta', pkcs11Init cfg disk = .ok (ta', []) ∧
    (SameOwner (ta.tokens token).dbMain (ta'.tokens token).dbMain ∧
        (ta'.tokens token).dbObjs = (ta.tokens token).dbObjs ∨
      ∀ uuid ∈ (ta.tokens token).dbObjs, uuid ∉ (ta'.tokens token).dbObjs) ∧
    ∀ t < cfg.tokenCount, ∀ uuid ∈ (ta'.tokens t).dbObjs, (disk.files.lookup uuid).isSome

theorem cutSafe_iff (hinv : WorldInv cfg w) (hfiles : FilesInv cfg w) (ht : token < cfg.tokenCount)
    (main : Main) (uuids : List ℕ) (hsound : ∀ a ∈ l, a.Sound cfg) (hon : ∀ a ∈ l, a.On token)
    (hmain : mainAfter token (w.ta.tokens token).dbMain l = main)
    (hobjs : objsAfter token (some (w.ta.tokens token).dbObjs) l = some uuids)
    (hsub : uuids.Sublist (w.ta.tokens token).dbObjs)
    (hdelete : ∀ uuid, Act.deleteFile uuid ∈ l → uuid ∈ (w.ta.tokens token).dbObjs ∧ uuid ∉ uuids) :
    CutSafe cfg w.ta token (w.disk.acts l) ↔
      (SameOwner (w.ta.tokens token).dbMain main ∧ uuids = (w.ta.tokens token).dbObjs ∨
        ∀ uuid ∈ (w.ta.tokens token).dbObjs, uuid ∉ uuids) := by
  obtain ⟨ta', heq, -, -, hstored⟩ := restart_ok hinv.db hsound
  obtain ⟨hmain', hobjs'⟩ := hstored token ht
  rw [hmain] at hmain'
  rw [hobjs, Option.some.injEq] at hobjs'
  have hlisted : ∀ t < cfg.tokenCount, ∀ uuid ∈ (ta'.tokens t).dbObjs,
      ((w.disk.acts l).files.lookup uuid).isSome := by
    intro t ht' uuid hmem
    by_cases heq' : t = token
    · subst heq'
      rw [hobjs'] at hmem
      exact lookup_files_acts (hfiles.1 t ht uuid (hsub.subset hmem)) fun h =>
        (hdelete uuid h).2 hmem
    · have hsame := (hstored t ht').2
      rw [objsAfter_of_ne heq' hon, Option.some.injEq] at hsame
      rw [hsame] at hmem
      exact lookup_files_acts (hfiles.1 t ht' uuid hmem) fun h =>
        hfiles.2 t ht' token ht heq' uuid hmem (hdelete uuid h).1
  constructor
  · rintro ⟨ta'', heq', hcut, -⟩
    cases heq.symm.trans heq'
    rwa [hmain', hobjs'] at hcut
  · intro hcut
    refine ⟨ta', heq, ?_, hlisted⟩
    rwa [hmain', hobjs']

/-- The token is as an initialisation leaves it. -/
def Main.Cleared (main : Main) (label : List UInt8) : Prop :=
  main.label = label ∧ main.tokenInitialized = true ∧ main.userPinInitialized = false ∧
    main.so.count = 0 ∧
    main.so.clear = main.so ∧ main.user.salt = 0 ∧ main.user.clear = main.user

/-- The power is cut while objects are removed. -/
def CutWhileRemoving (cfg : Config) (env : Env) (ta : Ta) (token : ℕ) (pin label : List UInt8)
    (k : ℕ) : Prop :=
  Reinitialises cfg env ta token pin ∧ verifications cfg (ta.tokens token).dbMain < k ∧
    k < verifications cfg (ta.tokens token).dbMain + 2 * (ta.tokens token).objects.length ∧
    (k = verifications cfg (ta.tokens token).dbMain + 1 → ¬(ta.tokens token).dbMain.Cleared label)

theorem sameOwner_initToken (hm : main.tokenInitialized → m = main) :
    SameOwner main (m.initToken label) ↔ main.Cleared label := by
  constructor
  · rintro (h | h)
    · have hinit : main.tokenInitialized = true := h ▸ rfl
      cases hm hinit
      refine ⟨?_, hinit, ?_, ?_, ?_, ?_, ?_⟩ <;> rw [← h] <;> rfl
    · have hcount := congrArg (fun m => m.so.count) h
      cases hcount
  · rintro ⟨hlabel, hinit, huser, hcount, hso, hsalt, hclear⟩
    cases hm hinit
    left
    obtain ⟨mlabel, minit, muser, mpath, mwrite, ⟨c, s, x, a₁, a₂, a₃, a₄⟩,
      ⟨c', s', x', b₁, b₂, b₃, b₄⟩⟩ := main
    simp only [Main.initToken, Pin.clear, Main.mk.injEq, Pin.mk.injEq] at *
    simp_all

theorem objsAfter_of_not_mem {objs : Option (List ℕ)} (h : ∀ t uuids, Act.writeObjs t uuids ∉ l) :
    objsAfter token objs l = objs := by
  refine foldl_eq_self fun a ha => ?_
  cases a with
  | writeObjs t uuids => exact absurd ha (h t uuids)
  | _ => rfl

theorem cutSafe_before (hinv : WorldInv cfg w) (hfiles : FilesInv cfg w)
    (ht : token < cfg.tokenCount) (hsound : ∀ a ∈ l, a.Sound cfg)
    (honly : ∀ a ∈ l, (∃ rc, a = .verify token .so rc) ∨
      a = .writeMain token { (w.ta.tokens token).dbMain with
        so := (w.ta.tokens token).dbMain.so.preset PKCS11_TOKEN_SO_PIN_COUNT_MAX } []) :
    CutSafe cfg w.ta token (w.disk.acts l) := by
  have hobjs : ∀ t uuids, Act.writeObjs t uuids ∉ l := fun t uuids h => by
    rcases honly _ h with ⟨rc, heq⟩ | heq <;> cases heq
  refine (cutSafe_iff hinv hfiles ht _ _ hsound (fun a ha => ?_) rfl (objsAfter_of_not_mem hobjs)
    (List.Sublist.refl _) fun uuid h => ?_).2 (.inl ⟨?_, rfl⟩)
  · rcases honly a ha with ⟨rc, rfl⟩ | rfl <;> rfl
  · rcases honly _ h with ⟨rc, heq⟩ | heq <;> cases heq
  · rcases mainAfter_cases token (w.ta.tokens token).dbMain l with heq | ⟨resets, hmem⟩
    · exact .inl heq
    · rcases honly _ hmem with ⟨rc, heq⟩ | heq
      · cases heq
      · rw [Act.writeMain.injEq] at heq
        exact .inr heq.2.1

theorem cutSafe_after (hinv : WorldInv cfg w) (hfiles : FilesInv cfg w)
    (ht : token < cfg.tokenCount) {auth : List Act} {resets : List Role}
    (hverify : ∀ a ∈ auth, ∃ rc, a = .verify token .so rc) (j : ℕ)
    (hsound : ∀ a ∈ (auth ++ [.writeMain token main resets])
      ++ (clearActs token (w.ta.tokens token).objects (w.ta.tokens token).dbObjs).take j,
      a.Sound cfg) :
    CutSafe cfg w.ta token (w.disk.acts ((auth ++ [.writeMain token main resets]) ++
      (clearActs token (w.ta.tokens token).objects (w.ta.tokens token).dbObjs).take j)) ↔
        (SameOwner (w.ta.tokens token).dbMain main ∧ j = 0 ∨ 2 * (w.ta.tokens token).objects.length
          ≤ j + 1) := by
  have hperm := hinv.db.objects token ht
  obtain ⟨uuids, hobjs, hsub, hlength, hdelete⟩ := clearActs_take token (w.ta.tokens token).objects
    (w.ta.tokens token).dbObjs j hperm (hinv.db.nodup ht)
  have hfirst : ∀ a ∈ auth ++ [.writeMain token main resets],
      (∃ rc, a = .verify token .so rc) ∨ a = .writeMain token main resets := by
    intro a ha
    rw [List.mem_append, List.mem_singleton] at ha
    exact ha.imp_left (hverify a)
  have hclear :
    ∀ a ∈ (clearActs token (w.ta.tokens token).objects (w.ta.tokens token).dbObjs).take j,
      (∃ uuids, a = .writeObjs token uuids) ∨ ∃ uuid, a = .deleteFile uuid := fun a ha =>
    clearActs_only a (List.mem_of_mem_take ha)
  refine (cutSafe_iff hinv hfiles ht main uuids hsound (fun a ha => ?_) ?_ ?_ hsub
    fun uuid h => ?_).trans ?_
  · rcases List.mem_append.1 ha with ha | ha
    · rcases hfirst a ha with ⟨rc, rfl⟩ | rfl <;> rfl
    · rcases hclear a ha with ⟨uuids, rfl⟩ | ⟨uuid, rfl⟩
      · rfl
      · trivial
  · rw [mainAfter_append, mainAfter_concat]
    rcases mainAfter_cases token main _ with heq | ⟨resets, hmem⟩
    · exact heq
    · rcases hclear _ hmem with ⟨uuids, heq⟩ | ⟨uuid, heq⟩ <;> cases heq
  · have hsame :
      objsAfter token (some (w.ta.tokens token).dbObjs) (auth ++ [.writeMain token main resets]) =
        some (w.ta.tokens token).dbObjs := by
      refine objsAfter_of_not_mem fun t uuids hmem => ?_
      rcases hfirst _ hmem with ⟨rc, heq⟩ | heq <;> cases heq
    rw [objsAfter_append, hsame]
    exact hobjs
  · rcases List.mem_append.1 h with h | h
    · rcases hfirst _ h with ⟨rc, heq⟩ | heq <;> cases heq
    · exact hdelete uuid h
  · have hcount : (w.ta.tokens token).objects.length = (w.ta.tokens token).dbObjs.length := by
      simpa using hperm.length_eq
    by_cases hend : 2 * (w.ta.tokens token).objects.length ≤ j + 1
    · have hnil : uuids = [] := List.eq_nil_of_length_eq_zero (by omega)
      rw [hnil]
      exact iff_of_true (.inr fun _ _ h => by cases h) (.inr hend)
    · -- Some object is still listed.
      have hsome : ¬∀ uuid ∈ (w.ta.tokens token).dbObjs, uuid ∉ uuids := by
        intro hnone
        obtain ⟨uuid, huuid⟩ := List.exists_mem_of_length_pos (l := uuids) (by omega)
        exact hnone uuid (hsub.subset huuid) huuid
      have hall : uuids = (w.ta.tokens token).dbObjs ↔ j = 0 := by
        refine ⟨fun heq => ?_, fun hj => hsub.eq_of_length ?_⟩
        · have := congrArg List.length heq
          omega
        · subst hj
          omega
      rw [or_iff_left hsome, or_iff_left hend, hall]

theorem tokenInitialize_cut (hinv : WorldInv cfg w) (hfiles : FilesInv cfg w)
    (ht : token < cfg.tokenCount) (env : Env) (pin label : List UInt8) (k : ℕ) :
    ∃ x, entryCkTokenInitialize cfg env w.ta token pin label = .ok x ∧
      (CutSafe cfg w.ta token (w.disk.acts (x.2.2.take k))
        ↔ ¬CutWhileRemoving cfg env w.ta token pin label k) := by
  obtain ⟨x, hx, hspec⟩ := entryCkTokenInitialize_ok env hinv.sessions hinv.db token pin label
  refine ⟨x, hx, ?_⟩
  have hsound : ∀ a ∈ x.2.2.take k, a.Sound cfg := fun a ha =>
    hspec.db.sound hinv.db a (List.mem_of_mem_take ha)
  rcases initialize_acts hinv.db ht hx with ⟨hre, m, auth, resets, hacts, hlen, hverify, hm⟩
    | ⟨hre, honly⟩
  · by_cases hk : k ≤ verifications cfg (w.ta.tokens token).dbMain
    · have htake : x.2.2.take k = auth.take k := by
        rw [hacts, List.take_append_of_le_length (by omega)]
      refine iff_of_true (cutSafe_before hinv hfiles ht hsound fun a ha => ?_) fun h => ?_
      · rw [htake] at ha
        exact .inl (hverify a (List.mem_of_mem_take ha))
      · exact absurd h.2.1 (by omega)
    · have htake : x.2.2.take k = (auth ++ [.writeMain token (m.initToken label) resets]) ++
          (clearActs token (w.ta.tokens token).objects (w.ta.tokens token).dbObjs).take
            (k - (verifications cfg (w.ta.tokens token).dbMain + 1)) := by
        rw [hacts, List.append_cons, List.take_append, List.take_of_length_le (by simp; omega)]
        simp [hlen]
      rw [htake] at hsound ⊢
      refine (cutSafe_after hinv hfiles ht hverify _ hsound).trans ?_
      rw [sameOwner_initToken hm, CutWhileRemoving, and_iff_right hre,
        and_iff_right (Nat.lt_of_not_le hk)]
      generalize verifications cfg (w.ta.tokens token).dbMain = v at hk
      generalize (w.ta.tokens token).objects.length = n
      by_cases hend : v + 2 * n ≤ k
      · exact iff_of_true (.inr (by omega)) fun h => absurd h.1 (by omega)
      · rw [or_iff_left (show ¬2 * n ≤ k - (v + 1) + 1 by omega),
          and_iff_right (Nat.lt_of_not_le hend), Classical.not_imp, not_not, and_comm]
        exact and_congr_left' (by omega)
  · refine iff_of_true (cutSafe_before hinv hfiles ht hsound
      fun a ha => honly a (List.mem_of_mem_take ha)) fun h => ?_
    exact hre h.1

/-! ## Power cuts while databases are created -/

/-- The number of tokens without a database. -/
def missing (disk : Disk) (tokens : List ℕ) : ℕ := tokens.countP fun t => (disk.db t).isNone

theorem initActs_take (disk : Disk) :
    ∀ (tokens : List ℕ) (disk₀ : Disk) (j : ℕ), tokens.Nodup →
    (∀ t ∈ tokens, disk₀.db t = disk.db t) →
    (∀ t, t ∉ tokens → (disk₀.acts ((tokens.flatMap (initActs disk)).take j)).db t = disk₀.db t) ∧
    (j % 3 = 1 ∧ j < 3 * missing disk tokens →
      ∃ t ∈ tokens, ∃ m, (disk₀.acts ((tokens.flatMap (initActs disk)).take j)).db t
        = some ⟨m, none⟩) ∧
    (¬(j % 3 = 1 ∧ j < 3 * missing disk tokens) → ∀ t ∈ tokens,
      (disk₀.acts ((tokens.flatMap (initActs disk)).take j)).db t = disk.db t ∨ disk.db t = none ∧
        (disk₀.acts ((tokens.flatMap (initActs disk)).take j)).db t = some ⟨.fresh, some []⟩)
  | [], disk₀, j, _, _ => by simp [missing, Disk.acts]
  | token :: tokens, disk₀, j, hnodup, hsame => by
    obtain ⟨hnot, hnodup⟩ := List.nodup_cons.1 hnodup
    have hne : ∀ t ∈ tokens, t ≠ token := fun t ht heq => hnot (heq ▸ ht)
    have htoken := hsame token List.mem_cons_self
    have hrest : ∀ t ∈ tokens, disk₀.db t = disk.db t :=
      fun t ht => hsame t (List.mem_cons_of_mem token ht)
    cases hdb : disk.db token with
    | some f =>
      have hacts : (token :: tokens).flatMap (initActs disk) = tokens.flatMap (initActs disk) := by
        simp [initActs, hdb]
      have hmissing : missing disk (token :: tokens) = missing disk tokens := by
        simp [missing, hdb]
      obtain ⟨hother, hshort, hwhole⟩ := initActs_take disk tokens disk₀ j hnodup hrest
      rw [hacts, hmissing]
      refine ⟨fun t ht => hother t fun h => ht (List.mem_cons_of_mem token h), fun h => ?_,
        fun h t ht => ?_⟩
      · obtain ⟨t, ht, hm⟩ := hshort h
        exact ⟨t, List.mem_cons_of_mem token ht, hm⟩
      · rcases List.mem_cons.1 ht with rfl | ht
        · exact .inl ((hother t hnot).trans htoken)
        · exact hwhole h t ht
    | none =>
      have hacts : (token :: tokens).flatMap (initActs disk) =
          .createDb token .fresh :: .truncateDb token :: .writeObjs token [] :: tokens.flatMap
          (initActs disk) := by
        simp [initActs, hdb]
      have hmissing : missing disk (token :: tokens) = missing disk tokens + 1 := by
        simp [missing, hdb]
      rw [hacts, hmissing]
      rcases j with _ | _ | _ | j
      · refine ⟨fun t _ => rfl, fun h => absurd h.1 (by decide), fun _ t ht => .inl (hsame t ht)⟩
      · refine ⟨fun t ht => ?_, fun _ => ⟨token, List.mem_cons_self, .fresh, ?_⟩,
          fun h => absurd ⟨rfl, by omega⟩ h⟩
        · exact Function.update_of_ne (List.ne_of_not_mem_cons ht) _ _
        · exact Function.update_self _ _ _
      · have hdb₂ : ∀ t, (disk₀.acts [.createDb token .fresh, .truncateDb token]).db t =
            if t = token then some ⟨.fresh, some []⟩ else disk₀.db t := by
          intro t
          by_cases ht : t = token <;> simp [Disk.acts, Disk.act, Disk.modifyDb, ht]
        refine ⟨fun t ht => ?_, fun h => absurd h.1 (by decide), fun _ t ht => ?_⟩
        · exact (hdb₂ t).trans (if_neg (List.ne_of_not_mem_cons ht))
        · by_cases heq : t = token
          · subst heq
            exact .inr ⟨hdb, (hdb₂ t).trans (if_pos rfl)⟩
          · exact .inl (((hdb₂ t).trans (if_neg heq)).trans (hsame t ht))
      · have hdb₃ := db_initActs disk₀ disk token
        have hinit : initActs disk token = [.createDb token .fresh, .truncateDb token,
            .writeObjs token []] := by
          simp [initActs, hdb]
        rw [hinit] at hdb₃
        obtain ⟨hother, hshort, hwhole⟩ := initActs_take disk tokens
          (disk₀.acts [.createDb token .fresh, .truncateDb token, .writeObjs token []]) j hnodup
          fun t ht => by
            rw [hdb₃, if_neg fun h => hne t ht h.1]
            exact hrest t ht
        have htake :
          (disk₀.acts ((.createDb token .fresh :: .truncateDb token :: .writeObjs token [] ::
            tokens.flatMap (initActs disk)).take (j + 3))) =
              (disk₀.acts [.createDb token .fresh, .truncateDb token, .writeObjs token []]).acts
                ((tokens.flatMap (initActs disk)).take j) := rfl
        rw [htake]
        refine ⟨fun t ht => ?_, fun h => ?_, fun h t ht => ?_⟩
        · rw [List.mem_cons, not_or] at ht
          rw [hother t ht.2, hdb₃, if_neg fun h => ht.1 h.1]
        · obtain ⟨t, ht, hm⟩ := hshort ⟨by omega, by omega⟩
          exact ⟨t, List.mem_cons_of_mem token ht, hm⟩
        · rcases List.mem_cons.1 ht with rfl | ht
          · exact .inr ⟨hdb, by rw [hother t hnot, hdb₃, if_pos ⟨rfl, hdb⟩]⟩
          · exact hwhole (fun h' => h ⟨by omega, by omega⟩) t ht

theorem initTokens_short (disk : Disk) : ∀ (tokens : List ℕ) (ta : Ta),
    (∃ t ∈ tokens, ∃ m, disk.db t = some ⟨m, none⟩) → initTokens disk tokens ta = .error .teePanic
  | [], _, ⟨_, ht, _⟩ => by cases ht
  | token :: tokens, ta, ⟨t, ht, m, hm⟩ => by
    rw [initTokens, initPersistentDb]
    rcases List.mem_cons.1 ht with rfl | ht
    · rw [hm]
      rfl
    · have hrest := fun ta => initTokens_short disk tokens ta ⟨t, ht, m, hm⟩
      cases hdb : disk.db token with
      | none =>
        change (initTokens disk tokens _ >>= _) = _
        rw [hrest]
        rfl
      | some f =>
        obtain ⟨main, - | uuids⟩ := f
        · rfl
        · change (initTokens disk tokens _ >>= _) = _
          rw [hrest]
          rfl

/-- Every object listed in storage has its file. -/
def Disk.Listed (disk : Disk) : Prop :=
  ∀ t m uuids, disk.db t = some ⟨m, some uuids⟩ → ∀ uuid ∈ uuids, (disk.files.lookup uuid).isSome

/-- The TA starts on the storage and finds every token as it was. -/
def CreationSafe (cfg : Config) (before disk : Disk) : Prop :=
  ∃ ta acts, pkcs11Init cfg disk = .ok (ta, acts) ∧ ∀ t < cfg.tokenCount,
    (before.db t).getD ⟨.fresh, some []⟩ = ⟨(ta.tokens t).dbMain, some (ta.tokens t).dbObjs⟩ ∧
      ∀ uuid ∈ (ta.tokens t).dbObjs, ((disk.acts acts).files.lookup uuid).isSome

theorem deleteFile_not_mem_initActs {uuid : ℕ} (tokens : List ℕ) :
    Act.deleteFile uuid ∉ tokens.flatMap (initActs disk) := by
  intro h
  obtain ⟨token, -, hmem⟩ := List.mem_flatMap.1 h
  rw [initActs] at hmem
  split_ifs at hmem <;> simp at hmem

theorem creation_cut (hdisk : disk.Sound cfg) (hlisted : disk.Listed) (j : ℕ) :
    ∃ ta acts, pkcs11Init cfg disk = .ok (ta, acts) ∧
      (CreationSafe cfg disk (disk.acts (acts.take j)) ↔
        ¬(j % 3 = 1 ∧ j < 3 * missing disk (List.range cfg.tokenCount))) := by
  obtain ⟨ta, heq, -⟩ := pkcs11Init_ok hdisk
  obtain ⟨hother, hshort, hwhole⟩ :=
    initActs_take disk (List.range cfg.tokenCount) disk j List.nodup_range fun _ _ => rfl
  refine ⟨ta, _, heq, ?_⟩
  set disk' := disk.acts (((List.range cfg.tokenCount).flatMap (initActs disk)).take j) with hdisk'
  by_cases hcut : j % 3 = 1 ∧ j < 3 * missing disk (List.range cfg.tokenCount)
  · refine iff_of_false ?_ (not_not_intro hcut)
    rintro ⟨ta', acts, hstart, -⟩
    rw [pkcs11Init, initTokens_short disk' _ _ (hshort hcut)] at hstart
    cases hstart
  · refine iff_of_true ?_ hcut
    have hdb : ∀ t, disk'.db t = disk.db t ∨ disk.db t = none
        ∧ disk'.db t = some ⟨.fresh, some []⟩ := by
      intro t
      by_cases ht : t ∈ List.range cfg.tokenCount
      · exact hwhole hcut t ht
      · exact .inl (hother t ht)
    have hsound : disk'.Sound cfg := by
      intro t f hf
      rcases hdb t with h | ⟨-, h⟩
      · exact hdisk t f (h ▸ hf)
      · cases h.symm.trans hf
        exact ⟨MainInv.fresh, [], rfl, List.nodup_nil⟩
    obtain ⟨ta', heq', -, -, hinv⟩ := pkcs11Init_ok hsound
    refine ⟨ta', _, heq', fun t ht => ?_⟩
    have hstored := hinv.stored t ht
    rw [db_flatMap_initActs] at hstored
    simp only [List.mem_range.2 ht, true_and] at hstored
    have htoken : (disk.db t).getD ⟨.fresh, some []⟩ = ⟨(ta'.tokens t).dbMain,
        some (ta'.tokens t).dbObjs⟩ := by
      rcases hdb t with h | ⟨hnone, h⟩
      · rw [h] at hstored
        cases hd : disk.db t with
        | none =>
          rw [hd, if_pos rfl, Option.some.injEq] at hstored
          exact hstored
        | some f =>
          rw [hd, if_neg (by simp), Option.some.injEq] at hstored
          exact hstored
      · rw [h, if_neg (by simp), Option.some.injEq] at hstored
        rw [hnone]
        exact hstored
    refine ⟨htoken, fun uuid hmem => ?_⟩
    refine lookup_files_acts ?_ (deleteFile_not_mem_initActs _)
    rw [hdisk']
    refine lookup_files_acts ?_ fun h => deleteFile_not_mem_initActs _ (List.mem_of_mem_take h)
    cases hd : disk.db t with
    | none =>
      rw [hd, Option.getD_none, DbFile.mk.injEq, Option.some.injEq] at htoken
      rw [← htoken.2] at hmem
      cases hmem
    | some f =>
      rw [hd] at htoken
      exact hlisted t _ _ (hd.trans (congrArg some htoken)) uuid hmem

/-- A power cut leaves what it should, unless it comes while the objects of a token that was written
anew are removed, or right after a database was created. -/
theorem initialize_cut (hinv : WorldInv cfg w) (hfiles : FilesInv cfg w) (hdisk : disk.Sound cfg)
    (hlisted : disk.Listed) :
    (∀ token < cfg.tokenCount, ∀ env pin label k, ∃ x,
      entryCkTokenInitialize cfg env w.ta token pin label = .ok x ∧
      (CutSafe cfg w.ta token (w.disk.acts (x.2.2.take k))
        ↔ ¬CutWhileRemoving cfg env w.ta token pin label k)) ∧
    ∀ j, ∃ ta acts, pkcs11Init cfg disk = .ok (ta, acts) ∧
      (CreationSafe cfg disk (disk.acts (acts.take j)) ↔
        ¬(j % 3 = 1 ∧ j < 3 * missing disk (List.range cfg.tokenCount))) :=
  ⟨fun _ ht env pin label k => tokenInitialize_cut hinv hfiles ht env pin label k,
    creation_cut hdisk hlisted⟩

/-- A token with an owner, who has one object. -/
def ownedDisk : Disk where
  db t := if t = 0 then some ⟨{ Main.fresh with
    tokenInitialized := true
    userPinInitialized := true
    so := ⟨0, 5, [1, 2, 3, 4], false, false, false, false⟩
    user := ⟨0, 5, [5, 6, 7, 8], false, false, false, false⟩ }, some [7]⟩ else none
  files := [(7, [])]

theorem ownedDisk_sound : ownedDisk.Sound plainConfig := by
  intro t f hf
  rw [ownedDisk] at hf
  dsimp only at hf
  split_ifs at hf
  cases hf
  exact ⟨⟨⟨by decide, rfl, rfl, rfl⟩, by decide, fun _ => ⟨by decide, rfl, rfl, rfl⟩,
    fun _ _ => by decide, fun _ => rfl⟩, [7], rfl, by decide⟩

/-- A cut after the last object is off the list leaves nothing of the old owner, and one after a new
database was extended a new token. -/
theorem initialize_cut_ownedDisk : (∃ w, World.start plainConfig ownedDisk = .ok w ∧
      ∃ x, entryCkTokenInitialize plainConfig plainEnv w.ta 0 [1, 2, 3, 4] [9] = .ok x ∧
        CutSafe plainConfig w.ta 0 (w.disk.acts (x.2.2.take 3))) ∧
    ∃ ta acts, pkcs11Init plainConfig .blank = .ok (ta, acts) ∧
      CreationSafe plainConfig .blank (Disk.blank.acts (acts.take 2)) := by
  obtain ⟨w, hstart, hlist, hfile, hlength, hverify⟩ :=
    exists_ok_of_decide (r := World.start plainConfig ownedDisk)
      (P := fun w => (w.ta.tokens 0).dbObjs = [7] ∧ w.disk.files = [(7, [])] ∧
      (w.ta.tokens 0).objects.length = 1 ∧
      verifications plainConfig (w.ta.tokens 0).dbMain = 1) (by decide +kernel)
  have hfiles : FilesInv plainConfig w := by
    refine ⟨fun t ht uuid hmem => ?_, fun t ht t' ht' hne => absurd ?_ hne⟩
    · cases Nat.lt_one_iff.1 ht
      rw [hlist, List.mem_singleton] at hmem
      rw [hfile, hmem]
      rfl
    · exact (Nat.lt_one_iff.1 ht).trans (Nat.lt_one_iff.1 ht').symm
  obtain ⟨w', hstart', hinv, -⟩ := WorldInv.start ownedDisk_sound
  cases hstart.symm.trans hstart'
  obtain ⟨hinit, hcreate⟩ := initialize_cut hinv hfiles Disk.blank_sound fun _ _ _ h => by cases h
  obtain ⟨x, hx, hsafe⟩ := hinit 0 (by decide) plainEnv [1, 2, 3, 4] [9] 3
  obtain ⟨ta, acts, hta, hsafe'⟩ := hcreate 2
  refine ⟨⟨w, hstart, x, hx, hsafe.2 fun h => ?_⟩, ta, acts, hta, hsafe'.2 (by decide)⟩
  have hlt := h.2.2.1
  rw [hlength, hverify] at hlt
  exact absurd hlt (by decide)

/-- A cut right after the token was written anew leaves the object of the old owner listed, with the
PIN of the user reset; after a cut right after a database was created the TA does not start. -/
theorem initialize_cut_leaves : (∃ w, World.start plainConfig ownedDisk = .ok w ∧
      ∃ x, entryCkTokenInitialize plainConfig plainEnv w.ta 0 [1, 2, 3, 4] [9] = .ok x ∧
        ∃ y, pkcs11Init plainConfig (w.disk.acts (x.2.2.take 2)) = .ok y ∧
          (w.ta.tokens 0).dbObjs = [7] ∧ (w.ta.tokens 0).dbMain.userPinInitialized = true ∧
          (y.1.tokens 0).dbObjs = [7] ∧ (y.1.tokens 0).dbMain.userPinInitialized = false) ∧
    ∃ y, pkcs11Init plainConfig .blank = .ok y ∧
      pkcs11Init plainConfig (Disk.blank.acts (y.2.take 1)) = .error .teePanic := by
  constructor
  · obtain ⟨w, hw, h⟩ := exists_of_okAnd (r := World.start plainConfig ownedDisk)
      (p := fun w => okAnd (entryCkTokenInitialize plainConfig plainEnv w.ta 0 [1, 2, 3, 4] [9])
      fun x =>
        okAnd (pkcs11Init plainConfig (w.disk.acts (x.2.2.take 2))) fun y =>
          decide ((w.ta.tokens 0).dbObjs = [7] ∧ (w.ta.tokens 0).dbMain.userPinInitialized = true ∧
            (y.1.tokens 0).dbObjs = [7] ∧ (y.1.tokens 0).dbMain.userPinInitialized
            = false)) (by decide +kernel)
    obtain ⟨x, hx, h⟩ := exists_of_okAnd h
    obtain ⟨y, hy, h⟩ := exists_of_okAnd h
    exact ⟨w, hw, x, hx, y, hy, of_decide_eq_true h⟩
  · refine ⟨_, rfl, eq_error_of_decide (by decide +kernel)⟩

end Optee.Pkcs11
