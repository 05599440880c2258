import Optee.Pkcs11.Token

/-!
# Verified and set PINs

The flags of a PIN are in step with its counter (`Pin.InStep`). The wrong PINs since the last right
one, or since the PIN was set, are at most as many as the counter in storage (`Counts`), save for
the one that `entry_ck_token_initialize` counts after it has verified it.
-/

namespace Optee.Pkcs11

variable {cfg : Config} {env : Env} {main main' : Main} {token : ℕ} {role : Role} {acts : List Act}

/-- The flags of a PIN are those of its counter. -/
structure Pin.InStep (p : Pin) (max : ℕ) : Prop where
  le : p.count ≤ max
  countLow : p.countLow = decide (0 < p.count)
  finalTry : p.finalTry = decide (max - 1 ≤ p.count)
  locked : p.locked = decide (p.count = max)

/-- Both PINs are in step with their counters. -/
structure MainInv (cfg : Config) (main : Main) : Prop where
  so : main.so.InStep PKCS11_TOKEN_SO_PIN_COUNT_MAX
  le : main.user.count ≤ PKCS11_TOKEN_USER_PIN_COUNT_MAX
  user : main.userPinInitialized → main.user.InStep PKCS11_TOKEN_USER_PIN_COUNT_MAX
  salt : main.userPinInitialized →
    (cfg.authTeeIdentity && main.protectedAuthenticationPath) = false →
    main.user.salt ≠ 0
  identity : (cfg.authTeeIdentity && main.protectedAuthenticationPath) = true → main.so.count = 0

/-- The counter that is stored, and the wrong PINs since the last right one or the last time that
the PIN was set. -/
def Act.tally (token : ℕ) (role : Role) (x : ℕ × ℕ) : Act → ℕ × ℕ
  | .writeMain t main resets =>
    if t = token then ((main.pin role).count, if role ∈ resets then 0 else x.2) else x
  | .verify t r rc =>
    if t = token ∧ r = role then
      match rc with
      | .ok => (x.1, 0)
      | .pinIncorrect => (x.1, x.2 + 1)
      | _ => x
    else x
  | _ => x

/-- At no point were more wrong PINs tried than are counted. -/
def Counts (token : ℕ) (role : Role) : ℕ × ℕ → List Act → Prop
  | x, [] => x.2 ≤ x.1
  | x, a :: acts => x.2 ≤ x.1 ∧ Counts token role (a.tally token role x) acts

/-- The counter and the wrong PINs after some writes. -/
def tallyAll (token : ℕ) (role : Role) (x : ℕ × ℕ) (acts : List Act) : ℕ × ℕ :=
  acts.foldl (Act.tally token role) x

theorem Counts.take {x : ℕ × ℕ} : ∀ {acts : List Act}, Counts token role x acts → ∀ k,
    (tallyAll token role x (acts.take k)).2 ≤ (tallyAll token role x (acts.take k)).1
  | [], h, _ => by rwa [List.take_nil]
  | _ :: _, h, 0 => h.1
  | _ :: _, h, k + 1 => h.2.take k

theorem Counts.append {acts' : List Act} :
    ∀ {acts : List Act} {x : ℕ × ℕ}, Counts token role x acts →
    Counts token role (tallyAll token role x acts) acts' → Counts token role x (acts ++ acts')
  | [], _, _, h => h
  | _ :: _, _, h, h' => ⟨h.1, h.2.append h'⟩

/-- The main part of a token after some writes. -/
def mainAfter (token : ℕ) (main : Main) (acts : List Act) : Main :=
  acts.foldl (fun main a => match a with
    | .writeMain t main' _ => if t = token then main' else main
    | _ => main) main

theorem tallyAll_fst (token : ℕ) (role : Role) (acts : List Act) :
    ∀ (main : Main) (w : ℕ),
    (tallyAll token role ((main.pin role).count, w) acts).1
      = ((mainAfter token main acts).pin role).count := by
  induction acts with
  | nil => exact fun _ _ => rfl
  | cons a acts ih =>
    intro main w
    rw [tallyAll, mainAfter, List.foldl_cons, List.foldl_cons]
    cases a with
    | writeMain t m resets =>
      simp only [Act.tally]
      split_ifs <;> exact ih _ _
    | verify t r rc =>
      simp only [Act.tally]
      split_ifs
      · cases rc <;> exact ih _ _
      · exact ih _ _
    | _ => exact ih _ _

theorem mainAfter_cases (token : ℕ) (main : Main) (acts : List Act) :
    mainAfter token main acts = main ∨
    ∃ resets, Act.writeMain token (mainAfter token main acts) resets ∈ acts := by
  induction acts generalizing main with
  | nil => exact .inl rfl
  | cons a acts ih =>
    have hcons : ∀ m, mainAfter token main (a :: acts) = mainAfter token m acts →
        (m = main ∨ ∃ resets, Act.writeMain token m resets = a) →
        mainAfter token main (a :: acts) = main ∨
          ∃ resets, Act.writeMain token (mainAfter token main (a :: acts)) resets ∈ a :: acts := by
      intro m heq hm
      rw [heq]
      rcases ih m with h | ⟨resets, h⟩
      · rw [h]
        exact hm.imp_right fun ⟨resets, h⟩ => ⟨resets, h ▸ List.mem_cons_self⟩
      · exact .inr ⟨resets, List.mem_cons_of_mem a h⟩
    cases a with
    | writeMain t m resets =>
      by_cases ht : t = token
      · subst ht
        exact hcons m (by simp [mainAfter]) (.inr ⟨resets, rfl⟩)
      · exact hcons main (by simp [mainAfter, ht]) (.inl rfl)
    | _ => exact hcons main rfl (.inl rfl)

theorem count_of_writes (h : ∀ m resets, Act.writeMain token m resets ∈ acts →
    (m.pin role).count = (main.pin role).count) (k : ℕ) :
    ((mainAfter token main (acts.take k)).pin role).count = (main.pin role).count := by
  rcases mainAfter_cases token main (acts.take k) with heq | ⟨resets, hmem⟩
  · rw [heq]
  · exact h _ resets (List.mem_of_mem_take hmem)

/-- What a function does with the PINs of a token. -/
structure PinSpec (cfg : Config) (token : ℕ) (main main' : Main) (acts : List Act) : Prop where
  only : ∀ a ∈ acts, (∃ m resets, a = .writeMain token m resets ∧ MainInv cfg m) ∨ ∃ r rc,
    a = .verify token r rc
  after : mainAfter token main acts = main'
  inv : MainInv cfg main'
  initialized : main.tokenInitialized → main'.tokenInitialized
  unlocked : ∀ r rc, Act.verify token r rc ∈ acts → (main.pin r).count < r.pinCountMax
  kept : ∀ r k, (∀ rc, Act.verify token r rc ∉ acts) →
    (∀ m resets, Act.writeMain token m resets ∈ acts.take k → r ∉ resets) →
    ((mainAfter token main (acts.take k)).pin r).count = (main.pin r).count
  verified : ∀ r, Act.verify token r .ok ∈ acts → (main'.pin r).count = 0
    ∧ (main'.pin r).InStep r.pinCountMax

theorem PinSpec.nothing (h : MainInv cfg main) : PinSpec cfg token main main [] where
  only _ ha := by cases ha
  after := rfl
  inv := h
  initialized := id
  unlocked _ _ ha := by cases ha
  kept _ k _ _ := by rw [List.take_nil]; rfl
  verified _ ha := by cases ha

/-! ## Counters and flags -/

theorem Role.one_lt_pinCountMax (role : Role) : 1 < role.pinCountMax := by
  cases role <;> decide

variable {p : Pin} {max : ℕ} {m : Main} {pin : List UInt8}

theorem Pin.InStep.preset (h : p.InStep max) (hlt : p.count < max) :
    (p.preset max).InStep max where
  le := hlt
  countLow := by simp [Pin.preset]
  finalTry := by
    rw [Pin.preset, h.finalTry, Bool.eq_iff_iff]
    simp only [Bool.or_eq_true, decide_eq_true_eq, beq_iff_eq]
    omega
  locked := by
    rw [Pin.preset, h.locked, Bool.eq_iff_iff]
    simp only [Bool.or_eq_true, decide_eq_true_eq, beq_iff_eq]
    omega

theorem Pin.InStep.settle (h : p.InStep max) (hlt : p.count < max) (hmax : 1 < max)
    (verified : Bool) : ((p.preset max).settle max verified).InStep max ∧
      ((p.preset max).settle max verified).count = if verified then 0 else p.count := by
  have hcount : ((p.preset max).settle max verified).count = if verified then 0 else p.count := by
    simp [Pin.settle, Pin.preset]
  have hle : (if verified then 0 else p.count) ≤ p.count := by split_ifs <;> omega
  refine ⟨⟨by omega, ?_, ?_, ?_⟩, hcount⟩ <;> rw [hcount]
  · have hlow : ((p.preset max).settle max verified).countLow =
        !(decide ((if verified then 0 else p.count) < max - 1)
        && (if verified then 0 else p.count) == 0) := by
      cases verified <;> rfl
    rw [hlow, Bool.eq_iff_iff]
    generalize (if verified then 0 else p.count) = n at hle
    simp only [Bool.not_eq_true', Bool.and_eq_false_iff, decide_eq_false_iff_not,
      beq_eq_false_iff_ne, decide_eq_true_eq]
    omega
  · have hfinal : ((p.preset max).settle max verified).finalTry = ((p.preset max).finalTry &&
        !decide ((if verified then 0 else p.count) < max - 1)) := by
      cases verified <;> rfl
    rw [hfinal, (h.preset hlt).finalTry, Bool.eq_iff_iff]
    have hpreset : (p.preset max).count = p.count + 1 := rfl
    generalize (if verified then 0 else p.count) = n at hle
    simp only [Bool.and_eq_true, Bool.not_eq_true', decide_eq_false_iff_not,
      decide_eq_true_eq, hpreset]
    omega
  · have hne : ¬(if verified then 0 else p.count) = max := by omega
    rw [decide_eq_false hne]
    rfl

theorem Pin.InStep.clear (p : Pin) (salt : ℕ) (secret : List UInt8) (hmax : 1 < max) :
    Pin.InStep { p.clear with count := 0, salt := salt, secret := secret } max where
  le := Nat.zero_le _
  countLow := rfl
  finalTry := (decide_eq_false (show ¬max - 1 ≤ 0 by omega)).symm
  locked := (decide_eq_false (show ¬0 = max by omega)).symm

theorem pin_withPin (main : Main) (p : Pin) (role role' : Role) :
    (main.withPin p role).pin role' = if role' = role then p else main.pin role' := by
  cases role <;> cases role' <;> rfl

theorem MainInv.withPin (h : MainInv cfg main) (role : Role) (hp : p.InStep role.pinCountMax)
    (hsalt : p.salt = (main.pin role).salt)
    (hmode : (cfg.authTeeIdentity && main.protectedAuthenticationPath) = false) :
    MainInv cfg (main.withPin p role) := by
  cases role with
  | so =>
    refine ⟨hp, h.le, h.user, h.salt, fun hc => ?_⟩
    have hc' : (cfg.authTeeIdentity && main.protectedAuthenticationPath) = true := hc
    rw [hmode] at hc'
    cases hc'
  | user =>
    refine ⟨h.so, hp.le, fun _ => hp, fun hu hmode => ?_, h.identity⟩
    have := h.salt hu hmode
    exact hsalt ▸ this

theorem tokenInitialized_withPin (p : Pin) :
    (main.withPin p role).tokenInitialized = main.tokenInitialized := by
  cases role <;> rfl

/-! ## Verification -/

theorem verify_of_verifyPin (cfg : Config) (env : Env) (role : Role) (pin secret : List UInt8)
    (salt : ℕ) :
    verifyPin cfg env role pin salt secret = .ok ∨
      verifyPin cfg env role pin salt secret = .pinIncorrect ∨
      verifyPin cfg env role pin salt secret = .deviceMemory
        ∨ verifyPin cfg env role pin salt secret = .generalError := by
  rw [verifyPin]
  rcases env.verifyError with - | e
  · dsimp only
    split_ifs <;> simp
  · cases e <;> simp [HashError.rc]

theorem mainAfter_concat {resets : List Role} :
    mainAfter token main (acts ++ [.writeMain token m resets]) = m := by
  simp [mainAfter]

theorem tryPin_cases (cfg : Config) (env : Env) (token : ℕ) (main : Main) (role : Role)
    (pin : List UInt8) :
    ((main.pin role).locked = true ∧ tryPin cfg env token main role pin = (.pinLocked, main, [])) ∨
    ((main.pin role).locked = false ∧ (∃ rc, tryPin cfg env token main role pin =
      (rc, main.withPin ((main.pin role).preset role.pinCountMax) role,
        [.writeMain token (main.withPin ((main.pin role).preset role.pinCountMax) role) [],
          .verify token role .pinIncorrect]) ∧ rc ≠ .ok)) ∨
    ((main.pin role).locked = false ∧ ∃ rc, rc ≠ .pinIncorrect
      ∧ tryPin cfg env token main role pin =
      (rc, main.withPin (((main.pin role).preset role.pinCountMax).settle role.pinCountMax
        (rc = .ok)) role,
        [.writeMain token (main.withPin ((main.pin role).preset role.pinCountMax) role) [],
          .verify token role rc,
          .writeMain token (main.withPin
            (((main.pin role).preset role.pinCountMax).settle role.pinCountMax (rc = .ok)) role)
            []])) := by
  rw [tryPin]
  dsimp only
  by_cases hlocked : (main.pin role).locked = true
  · exact .inl ⟨hlocked, if_pos hlocked⟩
  rw [if_neg hlocked]
  have hlocked' := Bool.eq_false_iff.2 hlocked
  rcases verify_of_verifyPin cfg env role pin (main.pin role).secret (main.pin role).salt with h | h
    | h | h <;> rw [h]
  · exact .inr (.inr ⟨hlocked', .ok, by decide, rfl⟩)
  · refine .inr (.inl ⟨hlocked', _, rfl, ?_⟩)
    split_ifs <;> decide
  · exact .inr (.inr ⟨hlocked', .deviceMemory, by decide, rfl⟩)
  · exact .inr (.inr ⟨hlocked', .generalError, by decide, rfl⟩)

theorem Pin.InStep.count_lt (h : p.InStep max) (hlocked : p.locked = false) : p.count < max := by
  have hne : ¬p.count = max := of_decide_eq_false (h.locked.symm.trans hlocked)
  have := h.le
  omega

theorem tryPin_spec (role : Role) (h : MainInv cfg main)
    (hp : (main.pin role).InStep role.pinCountMax)
    (hmode : (cfg.authTeeIdentity && main.protectedAuthenticationPath) = false) (pin : List UInt8) :
    PinSpec cfg token main (tryPin cfg env token main role pin).2.1
      (tryPin cfg env token main role pin).2.2 := by
  have hmax := role.one_lt_pinCountMax
  rcases tryPin_cases cfg env token main role pin with
    ⟨hlocked, heq⟩ | ⟨hlocked, rc, heq, -⟩ | ⟨hlocked, rc, hne, heq⟩ <;> rw [heq]
  · exact .nothing h
  · have hlt := hp.count_lt hlocked
    have hpreset := h.withPin role (hp.preset hlt) rfl hmode
    refine ⟨fun a ha => ?_, ?_, hpreset, fun hi => by rwa [tokenInitialized_withPin],
      fun r rc hr => ?_, fun r k hr _ => ?_, fun r hr => ?_⟩
    · simp only [List.mem_cons, List.not_mem_nil, or_false] at ha
      rcases ha with rfl | rfl
      · exact .inl ⟨_, _, rfl, hpreset⟩
      · exact .inr ⟨_, _, rfl⟩
    · simp [mainAfter]
    · simp only [List.mem_cons, List.not_mem_nil, or_false, reduceCtorEq, false_or,
        Act.verify.injEq] at hr
      rw [hr.2.1]
      exact hlt
    · have hne : r ≠ role := fun heq => hr .pinIncorrect (by simp [heq])
      refine count_of_writes (fun m resets hm => ?_) k
      simp only [List.mem_cons, List.not_mem_nil, or_false, reduceCtorEq, Act.writeMain.injEq] at hm
      rw [hm.2.1, pin_withPin, if_neg hne]
    · simp at hr
  · have hlt := hp.count_lt hlocked
    have hpreset := h.withPin role (hp.preset hlt) rfl hmode
    obtain ⟨hstep, hcount⟩ := hp.settle hlt hmax (decide (rc = .ok))
    have hsettled := h.withPin role hstep rfl hmode
    refine ⟨fun a ha => ?_, ?_, hsettled, fun hi => by rwa [tokenInitialized_withPin],
      fun r rc hr => ?_, fun r k hr _ => ?_, fun r hr => ?_⟩
    · simp only [List.mem_cons, List.not_mem_nil, or_false] at ha
      rcases ha with rfl | rfl | rfl
      · exact .inl ⟨_, _, rfl, hpreset⟩
      · exact .inr ⟨_, _, rfl⟩
      · exact .inl ⟨_, _, rfl, hsettled⟩
    · simp [mainAfter]
    · simp only [List.mem_cons, List.not_mem_nil, or_false, reduceCtorEq, false_or,
        Act.verify.injEq] at hr
      rw [hr.2.1]
      exact hlt
    · have hne : r ≠ role := fun heq => hr rc (by simp [heq])
      refine count_of_writes (fun m resets hm => ?_) k
      simp only [List.mem_cons, List.not_mem_nil, or_false, reduceCtorEq, false_or,
        Act.writeMain.injEq] at hm
      rcases hm with hm | hm <;> rw [hm.2.1, pin_withPin, if_neg hne]
    · simp only [List.mem_cons, List.not_mem_nil, or_false, reduceCtorEq, false_or,
        Act.verify.injEq] at hr
      obtain ⟨-, rfl, rfl⟩ := hr
      rw [pin_withPin, if_pos rfl]
      exact ⟨hcount, hstep⟩

theorem tryPin_counts (role : Role) (hp : (main.pin role).InStep role.pinCountMax)
    (pin : List UInt8) (r : Role) {w : ℕ} (hw : w ≤ (main.pin r).count) :
    Counts token r ((main.pin r).count, w) (tryPin cfg env token main role pin).2.2 := by
  have hmax := role.one_lt_pinCountMax
  rcases tryPin_cases cfg env token main role pin with
    ⟨-, heq⟩ | ⟨-, rc, heq, -⟩ | ⟨hlocked, rc, hne, heq⟩ <;> rw [heq]
  · exact hw
  · by_cases hr : r = role
    · subst hr
      simp only [Counts, Act.tally, pin_withPin, Pin.preset, and_self, ↓reduceIte, List.not_mem_nil]
      omega
    · simp only [Counts, Act.tally, pin_withPin, hr, Ne.symm hr, and_false, ↓reduceIte,
        List.not_mem_nil]
      omega
  · obtain ⟨-, hcount⟩ := hp.settle (hp.count_lt hlocked) hmax (decide (rc = .ok))
    by_cases hr : r = role
    · subst hr
      simp only [Counts, Act.tally, pin_withPin, and_self, ↓reduceIte, List.not_mem_nil, hcount]
      have hpreset : ((main.pin r).preset r.pinCountMax).count = (main.pin r).count + 1 := rfl
      cases rc <;> simp at hne ⊢ <;> omega
    · simp only [Counts, Act.tally, pin_withPin, hr, Ne.symm hr, and_false, ↓reduceIte,
        List.not_mem_nil]
      omega

/-! ## Setting -/

theorem Env.salt_ne_zero (env : Env) : env.salt ≠ 0 := by
  rw [Env.salt]
  split_ifs with h <;> simp [h]

/-- What setting a PIN does. -/
structure SetSpec (cfg : Config) (token : ℕ) (role : Role) (main main' : Main)
    (acts : List Act) : Prop where
  written : main' = main ∧ acts = [] ∨ acts = [.writeMain token main' [role]] ∧
    (main'.pin role).count = 0 ∧
    (main'.pin role).InStep role.pinCountMax ∧ ∀ r, r ≠ role → main'.pin r = main.pin r
  inv : MainInv cfg main'
  initialized : main.tokenInitialized → main'.tokenInitialized

theorem SetSpec.nothing (h : MainInv cfg main) : SetSpec cfg token role main main [] :=
  ⟨.inl ⟨rfl, rfl⟩, h, id⟩

/-- The PINs are as before. -/
structure SamePins (main m : Main) : Prop where
  so : m.so = main.so
  user : m.user = main.user
  userInit : m.userPinInitialized = main.userPinInitialized
  tokenInit : m.tokenInitialized = main.tokenInitialized

theorem SetSpec.written_pin (h : MainInv cfg main) {m : Main} {p : Pin} (hs : SamePins main m)
    (hp : p.InStep role.pinCountMax) (hcount : p.count = 0)
    (hmain : main' = match role with
      | .so => m.withPin p .so
      | .user => { m.withPin p .user with userPinInitialized := true })
    (hsalt : main'.userPinInitialized →
    (cfg.authTeeIdentity && main'.protectedAuthenticationPath) = false →
      main'.user.salt ≠ 0)
    (hidentity : role = .user → (cfg.authTeeIdentity && main'.protectedAuthenticationPath) = true →
      main.so.count = 0) : SetSpec cfg token role main main' [.writeMain token main' [role]] := by
  subst hmain
  obtain ⟨hm, hu, hinit, htoken⟩ := hs
  cases role with
  | so =>
    refine ⟨.inr ⟨rfl, hcount, hp, fun r hr => ?_⟩, ⟨hp, ?_, fun h' => ?_, hsalt, fun _ => hcount⟩,
      fun h' => ?_⟩
    · cases r with
      | so => exact absurd rfl hr
      | user => exact hu
    · change m.user.count ≤ _
      rw [hu]
      exact h.le
    · change m.user.InStep _
      rw [hu]
      exact h.user (hinit ▸ h')
    · exact htoken.trans h'
  | user =>
    refine ⟨.inr ⟨rfl, hcount, hp, fun r hr => ?_⟩, ⟨?_, hp.le, fun _ => hp, hsalt, fun h' => ?_⟩,
      fun h' => htoken.trans h'⟩
    · cases r with
      | so => exact hm
      | user => exact absurd rfl hr
    · change m.so.InStep _
      rw [hm]
      exact h.so
    · change m.so.count = 0
      rw [hm]
      exact hidentity rfl h'

theorem setupIdentityAuthFromPin_spec (h : MainInv cfg main) (hs : SamePins main m)
    (hmode : (cfg.authTeeIdentity && m.protectedAuthenticationPath) = true)
    (hidentity : role = .user → main.so.count = 0)
    (hset : setupIdentityAuthFromPin cfg env m role pin = .ok main') :
    SetSpec cfg token role main main' [.writeMain token main' [role]] := by
  rw [setupIdentityAuthFromPin] at hset
  split at hset
  · cases hset
  rename_i identity _
  have hprotected : main'.protectedAuthenticationPath = m.protectedAuthenticationPath := by
    cases role <;> cases hset <;> rfl
  refine SetSpec.written_pin h (m := m) (p := { ((m.pin role).setIdentity identity).clear with
    count := 0, salt :=
    0 }) hs (Pin.InStep.clear _ _ _ role.one_lt_pinCountMax) rfl ?_ (fun _ hc => ?_) fun hr _ =>
    hidentity hr
  · cases role <;> cases hset <;> rfl
  · rw [hprotected, hmode] at hc
    cases hc

theorem hashNewPin_spec (env : Env) (token : ℕ) (role : Role) (h : MainInv cfg main)
    (hs : SamePins main m)
    (hmode : m.protectedAuthenticationPath = main.protectedAuthenticationPath
      ∨ m.userPinInitialized = false ∧ m.protectedAuthenticationPath = false)
    (newPin : List UInt8) :
    (∃ rc, rc ≠ .ok ∧ hashNewPin cfg env token m role newPin = (rc, m, [])) ∨
      ∃ main', hashNewPin cfg env token m role newPin
        = (.ok, main', [.writeMain token main' [role]]) ∧
        SetSpec cfg token role main main' [.writeMain token main' [role]] := by
  rw [hashNewPin]
  split_ifs with hlen
  · exact .inl ⟨_, by decide, rfl⟩
  rcases env.hashError with - | e
  · refine .inr ⟨_, rfl, SetSpec.written_pin h (m := m) (p := { (m.pin role).clear with
      count := 0, salt := env.salt, secret := cfg.digest role env.salt newPin }) hs
      (Pin.InStep.clear _ _ _ role.one_lt_pinCountMax) rfl ?_ ?_ ?_⟩
    · cases role <;> rfl
    · cases role with
      | so =>
        intro h1 h2
        change m.user.salt ≠ 0
        have h1' : m.userPinInitialized = true := h1
        have h2' : (cfg.authTeeIdentity && m.protectedAuthenticationPath) = false := h2
        rcases hmode with hmode | ⟨hmode, -⟩
        · rw [hs.user]
          exact h.salt (hs.userInit ▸ h1') (hmode ▸ h2')
        · rw [hmode] at h1'
          cases h1'
      | user => exact fun _ _ => env.salt_ne_zero
    · rintro rfl h2
      have h2' : (cfg.authTeeIdentity && m.protectedAuthenticationPath) = true := h2
      rcases hmode with hmode | ⟨-, hmode⟩
      · exact h.identity (hmode ▸ h2')
      · rw [hmode, Bool.and_false] at h2'
        cases h2'
  · exact .inl ⟨_, by cases e <;> decide, rfl⟩

theorem setPin_spec (env : Env) (token : ℕ) (role : Role) (h : MainInv cfg main) (readWrite : Bool)
    (newPin : List UInt8) :
    SetSpec cfg token role main (setPin cfg env token main readWrite newPin role).2.1
      (setPin cfg env token main readWrite newPin role).2.2 := by
  rw [setPin]
  split_ifs with h1 h2 h3 h4
  · exact .nothing h
  · exact .nothing h
  · cases hset : setupIdentityAuthFromPin cfg env main role newPin with
    | ok main' =>
      exact setupIdentityAuthFromPin_spec h ⟨rfl, rfl, rfl, rfl⟩ h3 (fun _ => h.identity h3) hset
    | error rc =>
      dsimp only
      split_ifs with h5
      · rw [Bool.and_eq_true, Bool.not_eq_true'] at h5
        rcases hashNewPin_spec env token role h
          (m := { main with protectedAuthenticationPath := false }) ⟨rfl, rfl, rfl, rfl⟩
          (.inr ⟨h5.2, rfl⟩) newPin with
          ⟨rc', hne, heq⟩ | ⟨main', heq, hspec⟩ <;> rw [heq]
        · cases rc' <;> first | exact .nothing h | exact absurd rfl hne
        · exact hspec
      · exact .nothing h
  · cases hset :
      setupIdentityAuthFromPin cfg env { main with protectedAuthenticationPath := true } .so [] with
    | ok main' =>
      simp only [Bool.and_eq_true, decide_eq_true_eq] at h4
      obtain ⟨⟨⟨rfl, -⟩, hauth⟩, -⟩ := h4
      refine setupIdentityAuthFromPin_spec (m := { main with protectedAuthenticationPath := true })
        h ⟨rfl, rfl, rfl, rfl⟩ ?_ (fun hr => by cases hr) hset
      rw [hauth]
      rfl
    | error rc =>
      simp only [Bool.and_eq_true, decide_eq_true_eq] at h4
      have hmode : main.protectedAuthenticationPath = false := by
        simpa [h4.1.2] using h3
      have heq : ({ main with protectedAuthenticationPath := false } : Main) = main := by
        rw [← hmode]
      dsimp only
      rw [heq]
      exact .nothing h
  · rcases hashNewPin_spec env token role h ⟨rfl, rfl, rfl, rfl⟩ (.inl rfl) newPin with
      ⟨rc, -, heq⟩ | ⟨main', heq, hspec⟩ <;> rw [heq]
    · exact .nothing h
    · exact hspec

theorem SetSpec.pinSpec (h : SetSpec cfg token role main main' acts) :
    PinSpec cfg token main main' acts := by
  obtain ⟨⟨rfl, rfl⟩ | ⟨rfl, -, -, hother⟩, hinv, hinit⟩ := h
  · exact .nothing hinv
  · refine ⟨fun a ha => ?_, by simp [mainAfter], hinv, hinit, fun r rc hr => ?_, fun r k _ hr => ?_,
      fun r hr => ?_⟩
    · rw [List.mem_singleton.1 ha]
      exact .inl ⟨_, _, rfl, hinv⟩
    · simp at hr
    · rcases k with - | k
      · rfl
      · have hne : r ≠ role := fun heq => hr _ _ List.mem_cons_self (List.mem_singleton.2 heq)
        refine count_of_writes (fun m resets hm => ?_) (k + 1)
        rw [List.mem_singleton, Act.writeMain.injEq] at hm
        rw [hm.2.1, hother r hne]
    · simp at hr

theorem SetSpec.counts (h : SetSpec cfg token role main main' acts) (r : Role) {w : ℕ}
    (hw : w ≤ (main.pin r).count) :
    Counts token r ((main.pin r).count, w) acts := by
  obtain ⟨⟨rfl, rfl⟩ | ⟨rfl, hcount, -, hother⟩, -, -⟩ := h
  · exact hw
  · by_cases hr : r = role
    · subst hr
      simp only [Counts, Act.tally, ↓reduceIte, List.mem_singleton, hcount]
      omega
    · simp only [Counts, Act.tally, ↓reduceIte, List.mem_singleton, hr, hother r hr]
      omega

theorem PinSpec.append {acts' : List Act} (h : PinSpec cfg token main m acts)
    (h' : SetSpec cfg token role m main' acts') : PinSpec cfg token main main' (acts ++ acts') := by
  have hp := h'.pinSpec
  have hverify : ∀ r rc, Act.verify token r rc ∉ acts' := by
    obtain ⟨⟨-, rfl⟩ | ⟨rfl, -⟩, -, -⟩ := h' <;> simp
  have hmem : ∀ r rc, Act.verify token r rc ∈ acts ++ acts' →
      Act.verify token r rc ∈ acts := fun r rc hr =>
    (List.mem_append.1 hr).resolve_right (hverify r rc)
  refine ⟨fun a ha => ?_, ?_, hp.inv, hp.initialized ∘ h.initialized,
    fun r rc hr => h.unlocked r rc (hmem r rc hr), fun r k hv hr => ?_, fun r hr => ?_⟩
  · rcases List.mem_append.1 ha with ha | ha
    · exact h.only a ha
    · exact hp.only a ha
  · rw [mainAfter, List.foldl_append]
    exact (congrArg (fun m => mainAfter token m acts') h.after).trans hp.after
  · rw [List.take_append] at hr ⊢
    have hfirst := h.kept r k (fun rc hm => hv rc (List.mem_append_left _ hm)) fun m resets hm =>
      hr m resets (List.mem_append_left _ hm)
    have hsecond := hp.kept r (k - acts.length) (fun rc => hverify r rc) fun m resets hm =>
      hr m resets (List.mem_append_right _ hm)
    rw [mainAfter, List.foldl_append]
    by_cases hk : k ≤ acts.length
    · rw [Nat.sub_eq_zero_of_le hk]
      exact hfirst
    · rw [List.take_of_length_le (Nat.le_of_not_le hk)] at hfirst ⊢
      have hm : acts.foldl _ main = m := h.after
      rw [h.after] at hfirst
      rw [hm]
      exact hsecond.trans hfirst
  · obtain ⟨hcount, hstep⟩ := h.verified r (hmem r .ok hr)
    obtain ⟨⟨rfl, -⟩ | ⟨-, hcount', hstep', hother⟩, -, -⟩ := h'
    · exact ⟨hcount, hstep⟩
    · by_cases hr : r = role
      · subst hr
        exact ⟨hcount', hstep'⟩
      · rw [hother r hr]
        exact ⟨hcount, hstep⟩

/-! ## Checks -/

/-- What checking a PIN does, with its counter. -/
structure CheckSpec (cfg : Config) (token : ℕ) (main : Main) (r : Rc × Main × List Act) : Prop where
  spec : PinSpec cfg token main r.2.1 r.2.2
  counts : ∀ role w, w ≤ (main.pin role).count → Counts token role ((main.pin role).count, w) r.2.2

theorem CheckSpec.nothing (h : MainInv cfg main) (rc : Rc) :
    CheckSpec cfg token main (rc, main, []) :=
  ⟨.nothing h, fun _ _ hw => hw⟩

theorem checkSoPin_spec (env : Env) (token : ℕ) (h : MainInv cfg main) (pin : List UInt8)
    (hinit : main.tokenInitialized) :
    ∃ r, checkSoPin cfg env token main pin = .ok r ∧ CheckSpec cfg token main r := by
  rw [checkSoPin, if_neg (by simp [hinit])]
  split_ifs with hmode
  · exact ⟨_, rfl, .nothing h _⟩
  · exact ⟨_, rfl, tryPin_spec .so h h.so (Bool.eq_false_iff.2 hmode) pin,
      fun r w hw => tryPin_counts .so h.so pin r hw⟩

theorem checkUserPin_spec (env : Env) (token : ℕ) (h : MainInv cfg main) (pin : List UInt8) :
    ∃ r, checkUserPin cfg env token main pin = .ok r ∧ CheckSpec cfg token main r := by
  rw [checkUserPin]
  split_ifs with hinit hmode hsalt
  · exact ⟨_, rfl, .nothing h _⟩
  · exact ⟨_, rfl, .nothing h _⟩
  · rw [Bool.not_eq_true', Bool.not_eq_false] at hinit
    exact absurd hsalt (h.salt hinit (Bool.eq_false_iff.2 hmode))
  · rw [Bool.not_eq_true', Bool.not_eq_false] at hinit
    exact ⟨_, rfl, tryPin_spec .user h (h.user hinit) (Bool.eq_false_iff.2 hmode) pin,
      fun r w hw => tryPin_counts .user (h.user hinit) pin r hw⟩

/-! ## Initialisation -/

theorem MainInv.initToken (h : main.user.count ≤ PKCS11_TOKEN_USER_PIN_COUNT_MAX)
    (label : List UInt8) :
    MainInv cfg (main.initToken label) where
  so := Pin.InStep.clear main.so main.so.salt main.so.secret (by decide)
  le := h
  user hc := by cases hc
  salt hc := by cases hc
  identity _ := rfl

theorem authenticateSo_error (h : MainInv cfg main) (hlocked : main.so.locked = false)
    {r : Rc × Main × List Act} (hr : authenticateSo cfg env token main pin = .error r) :
    PinSpec cfg token main r.2.1 r.2.2 ∧
      ((∀ role w, w ≤ (main.pin role).count → Counts token role ((main.pin role).count, w) r.2.2) ∨
        main.tokenInitialized = true ∧
          (cfg.authTeeIdentity && main.protectedAuthenticationPath) = false ∧
          verifyPin cfg env .so pin main.so.salt main.so.secret = .pinIncorrect ∧
          r.2.2 = [.verify token .so .pinIncorrect, .writeMain token
            { main with so := main.so.preset PKCS11_TOKEN_SO_PIN_COUNT_MAX } []]) := by
  have hlt := h.so.count_lt hlocked
  rw [authenticateSo] at hr
  split_ifs at hr with h1 h2 h3 h4
  · cases hv : verifyIdentityAuth env main .so <;> rw [hv] at hr <;> cases hr <;>
      exact ⟨.nothing h, .inl fun _ _ hw => hw⟩
  · have hmode := Bool.eq_false_iff.2 h2
    rcases verify_of_verifyPin cfg env .so pin main.so.secret main.so.salt with hv | hv | hv | hv
      <;> rw [hv] at hr <;> cases hr
    · have hpreset : MainInv cfg { main with so := main.so.preset PKCS11_TOKEN_SO_PIN_COUNT_MAX } :=
        h.withPin .so (h.so.preset hlt) rfl hmode
      refine ⟨⟨fun a ha => ?_, by simp [mainAfter], hpreset, id, fun r rc hr => ?_,
        fun r k hr _ => ?_, fun r hr => ?_⟩, .inr ⟨h1, hmode, hv, rfl⟩⟩
      · simp only [List.mem_cons, List.not_mem_nil, or_false] at ha
        rcases ha with rfl | rfl
        · exact .inr ⟨_, _, rfl⟩
        · exact .inl ⟨_, _, rfl, hpreset⟩
      · simp only [List.mem_cons, List.not_mem_nil, or_false, reduceCtorEq, Act.verify.injEq] at hr
        rw [hr.2.1]
        exact hlt
      · cases r with
        | so => exact absurd List.mem_cons_self (hr .pinIncorrect)
        | user =>
          refine count_of_writes (fun m resets hm => ?_) k
          simp only [List.mem_cons, List.not_mem_nil, or_false, reduceCtorEq, false_or,
            Act.writeMain.injEq] at hm
          rw [hm.2.1]
          rfl
      · simp at hr
    all_goals
      refine ⟨⟨fun a ha => .inr ⟨_, _, List.mem_singleton.1 ha⟩, rfl, h, id, fun r rc hr => ?_,
        fun r k _ _ => ?_, fun r hr => ?_⟩,
        .inl fun role w hw => ?_⟩
      · simp only [List.mem_singleton, Act.verify.injEq] at hr
        rw [hr.2.1]
        exact hlt
      · refine count_of_writes (fun m resets hm => ?_) k
        simp at hm
      · simp at hr
      · simp only [Counts, Act.tally]
        split_ifs <;> exact ⟨hw, hw⟩
  · cases hs : setupSoIdentityAuthFromClient env main <;> rw [hs] at hr <;> cases hr
    exact ⟨.nothing h, .inl fun _ _ hw => hw⟩
  · cases hr
    exact ⟨.nothing h, .inl fun _ _ hw => hw⟩
  · cases he : env.hashError <;> rw [he] at hr <;> cases hr
    exact ⟨.nothing h, .inl fun _ _ hw => hw⟩

theorem authenticateSo_ok (h : MainInv cfg main) (hlocked : main.so.locked = false)
    {r : Main × List Role × List Act} (hr : authenticateSo cfg env token main pin = .ok r)
    (label : List UInt8) :
    PinSpec cfg token main (r.1.initToken label)
      (r.2.2 ++ [.writeMain token (r.1.initToken label) (.user :: r.2.1)]) ∧
      ∀ role w, w ≤ (main.pin role).count → Counts token role ((main.pin role).count, w)
        (r.2.2 ++ [.writeMain token (r.1.initToken label) (.user :: r.2.1)]) := by
  have hlt := h.so.count_lt hlocked
  -- What was verified is the PIN of the security officer, or the counter is 0 already, or the PIN
  -- was set.
  have hcases : r.1.user = main.user ∧ (r.2.2 = [.verify token .so .ok] ∨
      r.2.2 = [] ∧ (main.so.count = 0 ∨ .so ∈ r.2.1)) := by
    rw [authenticateSo] at hr
    split_ifs at hr with h1 h2 h3 h4
    · cases hv : verifyIdentityAuth env main .so <;> rw [hv] at hr <;> cases hr
      exact ⟨rfl, .inr ⟨rfl, .inl (h.identity h2)⟩⟩
    · cases hv : verifyPin cfg env .so pin main.so.salt main.so.secret <;> rw [hv] at hr
        <;> cases hr
      exact ⟨rfl, .inl rfl⟩
    · rw [setupSoIdentityAuthFromClient] at hr
      cases hi : env.identity <;> rw [hi] at hr <;> cases hr
      exact ⟨rfl, .inr ⟨rfl, .inr (List.mem_singleton.2 rfl)⟩⟩
    · cases he : env.hashError <;> rw [he] at hr <;> cases hr
      exact ⟨rfl, .inr ⟨rfl, .inr (List.mem_singleton.2 rfl)⟩⟩
  obtain ⟨hu, hacts⟩ := hcases
  have hinv : MainInv cfg (r.1.initToken label) := MainInv.initToken (by rw [hu]; exact h.le) label
  have hso : ((r.1.initToken label).pin .so).count = 0 := rfl
  have huser : ((r.1.initToken label).pin .user).count = (main.pin .user).count := by
    change r.1.user.count = main.user.count
    rw [hu]
  refine ⟨⟨fun a ha => ?_, mainAfter_concat, hinv, fun _ => rfl, fun role rc hv => ?_,
    fun role k hv hm => ?_, fun role hv => ?_⟩, fun role w hw => ?_⟩
  · rcases List.mem_append.1 ha with ha | ha
    · rcases hacts with hacts | ⟨hacts, -⟩ <;> rw [hacts] at ha
      · exact .inr ⟨_, _, List.mem_singleton.1 ha⟩
      · cases ha
    · exact .inl ⟨_, _, List.mem_singleton.1 ha, hinv⟩
  · rcases hacts with hacts | ⟨hacts, -⟩ <;> rw [hacts] at hv
    · simp only [List.mem_append, List.mem_singleton, Act.verify.injEq, reduceCtorEq,
        or_false] at hv
      rw [hv.2.1]
      exact hlt
    · simp at hv
  · rcases hacts with hacts | ⟨hacts, hzero⟩
    · cases role with
      | so => exact absurd (List.mem_append_left _ (hacts ▸ List.mem_singleton.2 rfl)) (hv .ok)
      | user =>
        refine count_of_writes (fun m resets hm => ?_) k
        simp only [hacts, List.mem_append, List.mem_singleton, reduceCtorEq, false_or,
          Act.writeMain.injEq] at hm
        rw [hm.2.1, huser]
    · rw [hacts, List.nil_append] at hm ⊢
      rcases k with - | k
      · rfl
      · have hresets := hm _ _ List.mem_cons_self
        cases role with
        | user => exact absurd List.mem_cons_self hresets
        | so =>
          rcases hzero with hzero | hmem
          · refine count_of_writes (fun m resets hm => ?_) (k + 1)
            rw [List.mem_singleton, Act.writeMain.injEq] at hm
            rw [hm.2.1, hso]
            exact hzero.symm
          · exact absurd (List.mem_cons_of_mem _ hmem) hresets
  · rcases hacts with hacts | ⟨hacts, -⟩ <;> rw [hacts] at hv
    · simp only [List.mem_append, List.mem_singleton, Act.verify.injEq, reduceCtorEq,
        or_false] at hv
      rw [hv.2.1]
      exact ⟨hso, hinv.so⟩
    · simp at hv
  · rcases hacts with hacts | ⟨hacts, hzero⟩ <;> rw [hacts]
    · cases role with
      | so => simp [Counts, Act.tally, hw]
      | user => simp [Counts, Act.tally, hw]
    · cases role with
      | so =>
        rcases hzero with hzero | hmem
        · have hw0 : w = 0 := Nat.le_zero.1 (hzero ▸ hw)
          simp [Counts, Act.tally, hw0]
        · simp [Counts, Act.tally, hw, hmem]
      | user => simp [Counts, Act.tally, hw]

end Optee.Pkcs11
