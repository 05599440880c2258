import Mathlib.Data.List.Basic
import Mathlib.Data.Nat.Notation

/-!
# PINs of a PKCS#11 token

The persistent state of a token, and the functions of `ta/pkcs11/src/persistent_token.c` and
`ta/pkcs11/src/pkcs11_token.c` that verify and set a PIN, for the security officer or the user. A
power cut comes after some of the acts that a function returns.
-/

namespace Optee.Pkcs11

/-- `enum pkcs11_rc` -/
inductive Rc where
  | ok
  | actionProhibited
  | argumentsBad
  | attributeReadOnly
  | attributeSensitive
  | attributeTypeInvalid
  | attributeValueInvalid
  | bufferTooSmall
  | dataLenRange
  | deviceMemory
  | functionFailed
  | generalError
  | keyFunctionNotPermitted
  | keyHandleInvalid
  | keyNotWrappable
  | keySizeRange
  | keyTypeInconsistent
  | keyUnextractable
  | mechanismInvalid
  | notFound
  | objectHandleInvalid
  | operationActive
  | operationNotInitialized
  | pinIncorrect
  | pinInvalid
  | pinLenRange
  | pinLocked
  | sessionExists
  | sessionHandleInvalid
  | sessionParallelNotSupported
  | sessionReadOnly
  | sessionReadOnlyExists
  | sessionReadWriteSoExists
  | slotIdInvalid
  | templateIncomplete
  | templateInconsistent
  | tokenWriteProtected
  | unwrappingKeyTypeInconsistent
  | userAlreadyLoggedIn
  | userAnotherAlreadyLoggedIn
  | userNotLoggedIn
  | userPinNotInitialized
  | userTypeInvalid
  | wrappingKeyHandleInvalid
  | wrappingKeyTypeInconsistent
  deriving DecidableEq

inductive Role where
  | so
  | user
  deriving DecidableEq

def PKCS11_TOKEN_PIN_SIZE_MAX : ℕ := 128

def PKCS11_TOKEN_PIN_SIZE_MIN : ℕ := 4

def PKCS11_TOKEN_SO_PIN_COUNT_MAX : ℕ := 7

def PKCS11_TOKEN_USER_PIN_COUNT_MAX : ℕ := 7

def Role.pinCountMax : Role → ℕ
  | .so => PKCS11_TOKEN_SO_PIN_COUNT_MAX
  | .user => PKCS11_TOKEN_USER_PIN_COUNT_MAX

/-- `struct token_persistent_main` for a role. The secret is the hash of the PIN or the identity of
a client. -/
structure Pin where
  count : ℕ
  salt : ℕ
  secret : List UInt8
  countLow : Bool
  finalTry : Bool
  locked : Bool
  toBeChanged : Bool

/-- `struct token_persistent_main` -/
structure Main where
  label : List UInt8
  tokenInitialized : Bool
  userPinInitialized : Bool
  protectedAuthenticationPath : Bool
  writeProtected : Bool
  so : Pin
  user : Pin

def Main.pin (main : Main) : Role → Pin
  | .so => main.so
  | .user => main.user

def Main.withPin (main : Main) (pin : Pin) : Role → Main
  | .so => { main with so := pin }
  | .user => { main with user := pin }

/-- The attributes of a `struct obj_attrs`, in order. -/
abbrev Attrs := List (ℕ × List UInt8)

/-- What a command does to the storage, the PINs that it verifies and the keys that it uses. A write
of the database says whose PIN it sets or clears. -/
inductive Act where
  | writeMain (token : ℕ) (main : Main) (resets : List Role)
  | writeObjs (token : ℕ) (uuids : List ℕ)
  | createDb (token : ℕ) (main : Main)
  | truncateDb (token : ℕ)
  | createFile (uuid : ℕ) (attrs : Attrs)
  | writeFile (uuid : ℕ) (attrs : Attrs)
  | deleteFile (uuid : ℕ)
  | verify (token : ℕ) (role : Role) (rc : Rc)
  | use (key : Attrs)

/-- The number of tokens, `CFG_PKCS11_TA_AUTH_TEE_IDENTITY`, the hash of a role, salt and PIN, and
the identity in an access control string. -/
structure Config where
  tokenCount : ℕ
  authTeeIdentity : Bool
  digest : Role → ℕ → List UInt8 → List UInt8
  aclIdentity : List UInt8 → Option (List UInt8)

/-- The calls of `do_hash` that fail. -/
inductive HashError where
  | allocateOperation
  | digestDoFinal

def HashError.rc : HashError → Rc
  | .allocateOperation => .deviceMemory
  | .digestDoFinal => .generalError

structure Env where
  identity : Option (List UInt8)
  verifyError : Option HashError
  hashError : Option HashError
  random : ℕ

variable (cfg : Config) (env : Env)

def verifyPin (role : Role) (pin : List UInt8) (salt : ℕ) (secret : List UInt8) : Rc :=
  match env.verifyError with
  | some e => e.rc
  | none => if cfg.digest role salt pin = secret then .ok else .pinIncorrect

/-- The salt of `hash_pin` -/
def Env.salt : ℕ := if env.random = 0 then 1 else env.random

def Pin.clear (p : Pin) : Pin :=
  { p with countLow := false, finalTry := false, locked := false, toBeChanged := false }

def Pin.setIdentity (p : Pin) (identity : List UInt8) : Pin :=
  { p with secret := identity ++ p.secret.drop identity.length }

/-! ## Authentication by the identity of the client -/

def setupSoIdentityAuthFromClient (main : Main) : Except Rc Main :=
  match env.identity with
  | none => .error .pinInvalid
  | some identity => .ok { main with
      protectedAuthenticationPath := true
      so := { main.so.setIdentity identity with salt := 0 } }

/-- `setup_identity_auth_from_pin`, with null for an empty PIN. -/
def setupIdentityAuthFromPin (main : Main) (role : Role) (pin : List UInt8) : Except Rc Main :=
  match if pin = [] then env.identity else cfg.aclIdentity pin with
  | none => .error .pinInvalid
  | some identity =>
    let main := main.withPin { ((main.pin role).setIdentity identity).clear with
      count := 0, salt := 0 } role
    match role with
    | .so => .ok main
    | .user => .ok { main with userPinInitialized := true }

def verifyIdentityAuth (main : Main) (role : Role) : Rc :=
  match env.identity with
  | none => .pinInvalid
  | some identity =>
    if (main.pin role).secret.take identity.length = identity then .ok else .pinIncorrect

/-! ## PINs -/

/-- The new hash of a PIN in `set_pin`. -/
def hashNewPin (token : ℕ) (main : Main) (role : Role)
    (newPin : List UInt8) : Rc × Main × List Act :=
  if newPin.length < PKCS11_TOKEN_PIN_SIZE_MIN ∨ PKCS11_TOKEN_PIN_SIZE_MAX < newPin.length then
    (.pinLenRange, main, [])
  else
    match env.hashError with
    | some e => (e.rc, main, [])
    | none =>
      let main := main.withPin { (main.pin role).clear with
        count := 0
        salt := env.salt
        secret := cfg.digest role env.salt newPin } role
      let main := match role with
        | .so => main
        | .user => { main with userPinInitialized := true }
      (.ok, main, [.writeMain token main [role]])

def setPin (token : ℕ) (main : Main) (readWrite : Bool) (newPin : List UInt8) (role : Role) :
    Rc × Main × List Act :=
  if main.writeProtected then (.tokenWriteProtected, main, [])
  else if !readWrite then (.sessionReadOnly, main, [])
  else if cfg.authTeeIdentity && main.protectedAuthenticationPath then
    match setupIdentityAuthFromPin cfg env main role newPin with
    | .ok main => (.ok, main, [.writeMain token main [role]])
    | .error rc =>
      if rc = .pinInvalid && !main.userPinInitialized then
        -- The flag that names the mode is cleared if the PIN is set.
        match hashNewPin cfg env token { main with protectedAuthenticationPath := false } role
          newPin with
        | (.ok, main, acts) => (.ok, main, acts)
        | (rc, _, acts) => (rc, main, acts)
      else (rc, main, [])
  else if role = .so && newPin = [] && cfg.authTeeIdentity && !main.userPinInitialized then
    match setupIdentityAuthFromPin cfg env { main with protectedAuthenticationPath := true }
      .so [] with
    | .ok main => (.ok, main, [.writeMain token main [.so]])
    | .error rc => (rc, { main with protectedAuthenticationPath := false }, [])
  else hashNewPin cfg env token main role newPin

def Pin.preset (p : Pin) (max : ℕ) : Pin :=
  { p with
    count := p.count + 1
    countLow := true
    finalTry := p.finalTry || p.count + 1 == max - 1
    locked := p.locked || p.count + 1 == max }

def Pin.settle (p : Pin) (max : ℕ) (verified : Bool) : Pin :=
  let count := if verified then 0 else p.count - 1
  { p with
    count
    locked := false
    finalTry := p.finalTry && !decide (count < max - 1)
    countLow := p.countLow && !(decide (count < max - 1) && count == 0) }

/-- What `check_so_pin` and `check_user_pin` have in common. -/
def tryPin (token : ℕ) (main : Main) (role : Role) (pin : List UInt8) : Rc × Main × List Act :=
  let p := main.pin role
  if p.locked then (.pinLocked, main, [])
  else
    let preset := main.withPin (p.preset role.pinCountMax) role
    match verifyPin cfg env role pin p.salt p.secret with
    | .pinIncorrect =>
      (if (p.preset role.pinCountMax).locked then .pinLocked else .pinIncorrect, preset,
        [.writeMain token preset [], .verify token role .pinIncorrect])
    | rc =>
      let settled :=
        main.withPin ((p.preset role.pinCountMax).settle role.pinCountMax (rc = .ok)) role
      (rc, settled, [.writeMain token preset [], .verify token role rc,
        .writeMain token settled []])

/-- `TEE_Panic`, an assertion, and the use of an object that was freed or of attributes that are not
loaded. -/
inductive Panic where
  | teePanic
  | assertion
  | useAfterFree
  | notLoaded
  deriving DecidableEq

def checkSoPin (token : ℕ) (main : Main) (pin : List UInt8) : Except Panic (Rc × Main × List Act) :=
  if !main.tokenInitialized then .error .assertion
  else if cfg.authTeeIdentity && main.protectedAuthenticationPath then
    .ok (verifyIdentityAuth env main .so, main, [])
  else .ok (tryPin cfg env token main .so pin)

def checkUserPin (token : ℕ) (main : Main) (pin : List UInt8) :
    Except Panic (Rc × Main × List Act) :=
  if !main.userPinInitialized then .ok (.userPinNotInitialized, main, [])
  else if cfg.authTeeIdentity && main.protectedAuthenticationPath then
    .ok (verifyIdentityAuth env main .user, main, [])
  else if main.user.salt = 0 then .error .assertion
  else .ok (tryPin cfg env token main .user pin)

/-! ## Initialisation of a token -/

/-- The authentication of `entry_ck_token_initialize`: what it returns with or goes on with, and
what it has done. -/
def authenticateSo (token : ℕ) (main : Main) (pin : List UInt8) :
    Except (Rc × Main × List Act) (Main × List Role × List Act) :=
  if main.tokenInitialized then
    if cfg.authTeeIdentity && main.protectedAuthenticationPath then
      match verifyIdentityAuth env main .so with
      | .ok => .ok (main, [], [])
      | rc => .error (rc, main, [])
    else
      match verifyPin cfg env .so pin main.so.salt main.so.secret with
      | .ok => .ok (main, [], [.verify token .so .ok])
      | .pinIncorrect =>
        let main := { main with so := main.so.preset PKCS11_TOKEN_SO_PIN_COUNT_MAX }
        .error (.pinIncorrect, main, [.verify token .so .pinIncorrect, .writeMain token main []])
      | rc => .error (rc, main, [.verify token .so rc])
  else if cfg.authTeeIdentity && pin = [] then
    match setupSoIdentityAuthFromClient env main with
    | .ok main => .ok (main, [.so], [])
    | .error rc => .error (rc, main, [])
  else if pin.length < PKCS11_TOKEN_PIN_SIZE_MIN ∨ PKCS11_TOKEN_PIN_SIZE_MAX < pin.length then
    .error (.argumentsBad, main, [])
  else
    match env.hashError with
    | some e => .error (e.rc, main, [])
    | none => .ok ({ main with so := { main.so with
        salt := env.salt, secret := cfg.digest .so env.salt pin } }, [.so], [])

/-- What `entry_ck_token_initialize` writes. -/
def Main.initToken (main : Main) (label : List UInt8) : Main :=
  { main with
    label
    tokenInitialized := true
    userPinInitialized := false
    so := { main.so.clear with count := 0 }
    user := { main.user.clear with salt := 0 } }

/-- A token as `init_persistent_db` creates it. -/
def Main.fresh : Main where
  label := List.replicate 32 42
  tokenInitialized := false
  userPinInitialized := false
  protectedAuthenticationPath := false
  writeProtected := false
  so := ⟨0, 0, List.replicate 64 0, false, false, false, true⟩
  user := ⟨0, 0, List.replicate 64 0, false, false, false, true⟩

end Optee.Pkcs11
