import Optee.Lib.Heap
import Optee.Pkcs11.Token

/-!
# Sessions of the PKCS#11 TA

The clients, sessions and tokens of `ta/pkcs11/src/pkcs11_token.c`, and the commands that open and
close sessions, log in and out, and initialise tokens and PINs. The handle databases of
`ta/pkcs11/src/handle.c` are those of objects. A command is given its arguments as they were read
from the buffer of the client.
-/

namespace Optee.Pkcs11

/-! ## Handles -/

/-- Free, allocated but invalid, or the address of an object. -/
inductive Slot where
  | free
  | invalid
  | object (address : ℕ)
  deriving DecidableEq

abbrev HandleDb := List Slot

def handlePut (db : HandleDb) (handle : ℕ) : HandleDb :=
  if handle = 0 then db else db.set (handle - 1) .free

def handleLookup (db : HandleDb) (handle : ℕ) : Option ℕ :=
  if handle = 0 then none
  else
    match db[handle - 1]? with
    | some (.object address) => some address
    | _ => none

def handleLookupHandle (db : HandleDb) (address : ℕ) : ℕ :=
  let n := db.findIdx (· = .object address)
  if n < db.length then n + 1 else 0

/-! ## State -/

inductive SessionState where
  | roPublicSession
  | roUserFunctions
  | rwPublicSession
  | rwUserFunctions
  | rwSoFunctions

def SessionState.isReadWrite : SessionState → Bool
  | .rwPublicSession | .rwUserFunctions | .rwSoFunctions => true
  | _ => false

def SessionState.isPublic : SessionState → Bool
  | .roPublicSession | .rwPublicSession => true
  | _ => false

def SessionState.isUser : SessionState → Bool
  | .roUserFunctions | .rwUserFunctions => true
  | _ => false

def SessionState.isSo : SessionState → Bool
  | .rwSoFunctions => true
  | _ => false

/-- `enum processing_func`, as far as an active processing is for one. -/
inductive Function where
  | encrypt
  | decrypt
  | sign
  | verify
  | digest
  | derive
  | wrap
  | unwrap

/-- `enum processing_step` -/
inductive Step where
  | init
  | oneshot
  | update
  | updateKey
  | final

/-- `struct active_processing`, with the state of the session when it was started. -/
structure Processing where
  function : Function
  mechaType : ℕ
  step : Step
  alwaysAuthen : Bool
  key : Option Attrs
  data : List (List UInt8)
  since : SessionState

/-- `struct pkcs11_find_objects`, with the state of the session when it was started. -/
structure FindObjects where
  handles : List ℕ
  since : SessionState

/-- `struct pkcs11_object`. The attributes of an object of a token are loaded when they are
needed. -/
structure Object where
  address : ℕ
  attributes : Option Attrs
  uuid : ℕ

structure Session where
  client : ℕ
  handle : ℕ
  token : ℕ
  state : SessionState
  objects : List Object
  processing : Option Processing
  findCtx : Option FindObjects

inductive TokenState where
  | readWrite
  | readOnly
  deriving DecidableEq

/-- `struct ck_token` -/
structure Token where
  state : TokenState
  sessionCount : ℕ
  rwSessionCount : ℕ
  objects : List Object
  dbMain : Main
  dbObjs : List ℕ

structure Ta where
  tokens : ℕ → Token
  clients : List (ℕ × HandleDb)
  sessions : List Session
  next : ℕ

structure Reply where
  rc : Rc
  handles : List ℕ
  data : List UInt8

def reply (rc : Rc) : Reply := ⟨rc, [], []⟩

abbrev Result := Except Panic (Reply × Ta × List Act)

def Ta.fail (ta : Ta) (rc : Rc) : Result := .ok (reply rc, ta, [])

namespace Ta

variable (ta : Ta)

def modifyToken (token : ℕ) (f : Token → Token) : Ta :=
  { ta with tokens := Function.update ta.tokens token (f (ta.tokens token)) }

def setMain (token : ℕ) (main : Main) : Ta :=
  ta.modifyToken token fun t => { t with dbMain := main }

def modifyHandles (client : ℕ) (f : HandleDb → HandleDb) : Ta :=
  { ta with clients := Heap.modify ta.clients client f }

/-- `pkcs11_handle2session` -/
def session (client handle : ℕ) : Option Session :=
  ta.sessions.find? fun s => s.client = client && s.handle = handle

def modifySession (client handle : ℕ) (f : Session → Session) : Ta :=
  { ta with
    sessions := ta.sessions.map fun s => if s.client = client ∧ s.handle = handle then f s else s }

def siblings (client token : ℕ) : List Session :=
  ta.sessions.filter fun s => s.client = client && s.token = token

end Ta

/-! ## Attributes -/

def PKCS11_CKA_PRIVATE : ℕ := 0x0002

/-- The first attribute that has the identifier. -/
def getAttribute (attrs : Attrs) (id : ℕ) : Option (List UInt8) := attrs.lookup id

def getBool (attrs : Attrs) (id : ℕ) : Bool :=
  match getAttribute attrs id with
  | some (b :: _) => b ≠ 0
  | _ => false

def Object.attrs (obj : Object) : Attrs := obj.attributes.getD []

def objectIsPrivate (attrs : Attrs) : Bool := getBool attrs PKCS11_CKA_PRIVATE

/-! ## Opening and closing -/

def registerClient (ta : Ta) : Ta :=
  { ta with clients := (ta.next, []) :: ta.clients, next := ta.next + 1 }

def loginState (s : SessionState) (readonly : Bool) : Except Panic SessionState :=
  match s with
  | .rwPublicSession | .roPublicSession =>
    .ok (if readonly then .roPublicSession else .rwPublicSession)
  | .roUserFunctions | .rwUserFunctions =>
    .ok (if readonly then .roUserFunctions else .rwUserFunctions)
  | .rwSoFunctions => if readonly then .error .teePanic else .ok .rwSoFunctions

def setSessionState (ta : Ta) (client token : ℕ) (readonly : Bool) : Except Panic SessionState :=
  match ta.siblings client token with
  | [] => .ok (if readonly then .roPublicSession else .rwPublicSession)
  | s :: _ => loginState s.state readonly

def PKCS11_CKFSS_RW_SESSION : ℕ := 1 <<< 1

def PKCS11_CKFSS_SERIAL_SESSION : ℕ := 1 <<< 2

/-- What `handle_get` gives a session. -/
def freshHandle (handles : List ℕ) : ℕ :=
  ((List.range (handles.length + 1)).map (· + 1)).find? (fun h => h ∉ handles) |>.getD 0

def entryCkOpenSession (cfg : Config) (ta : Ta) (client token flags : ℕ) : Result :=
  if cfg.tokenCount ≤ token then ta.fail .slotIdInvalid
  else if flags &&& PKCS11_CKFSS_SERIAL_SESSION = 0 then ta.fail .sessionParallelNotSupported
  else if flags ≠ flags &&& (PKCS11_CKFSS_RW_SESSION ||| PKCS11_CKFSS_SERIAL_SESSION) then
    ta.fail .argumentsBad
  else
    let readonly : Bool := flags &&& PKCS11_CKFSS_RW_SESSION = 0
    if !readonly && (ta.tokens token).state = .readOnly then ta.fail .tokenWriteProtected
    else if readonly && ta.sessions.any (fun s => s.client = client && s.state.isSo) then
      ta.fail .sessionReadWriteSoExists
    else do
      let handle := freshHandle ((ta.sessions.filter (·.client = client)).map (·.handle))
      let state ← setSessionState ta client token readonly
      let ta :=
        { ta with sessions := ⟨client, handle, token, state, [], none, none⟩ :: ta.sessions }
      let ta := ta.modifyToken token fun t => { t with
        sessionCount := t.sessionCount + 1
        rwSessionCount := if readonly then t.rwSessionCount else t.rwSessionCount + 1 }
      .ok (⟨.ok, [handle], []⟩, ta, [])

def putHandle (client : ℕ) (ta : Ta) (obj : Object) : Ta :=
  ta.modifyHandles client fun db => handlePut db (handleLookupHandle db obj.address)

/-- `destroy_object` for a session object. -/
def destroySessionObject (client handle : ℕ) (ta : Ta) (obj : Object) : Ta :=
  (putHandle client ta obj).modifySession client handle fun s =>
    { s with objects := s.objects.filter (·.address ≠ obj.address) }

def closeCkSession (ta : Ta) (session : Session) : Ta :=
  let ta := session.objects.foldl (destroySessionObject session.client session.handle) ta
  let ta := { ta with sessions := ta.sessions.filter fun s =>
    !(s.client = session.client && s.handle = session.handle) }
  ta.modifyToken session.token fun t => { t with
    sessionCount := t.sessionCount - 1
    rwSessionCount := if session.state.isReadWrite then t.rwSessionCount - 1 else t.rwSessionCount }

def entryCkCloseSession (ta : Ta) (session : Session) : Result :=
  .ok (reply .ok, closeCkSession ta session, [])

def entryCkCloseAllSessions (cfg : Config) (ta : Ta) (client token : ℕ) : Result :=
  if cfg.tokenCount ≤ token then ta.fail .slotIdInvalid
  else .ok (reply .ok, (ta.siblings client token).foldl closeCkSession ta, [])

def unregisterClient (ta : Ta) (client : ℕ) : Ta :=
  let ta := (ta.sessions.filter (·.client = client)).foldl closeCkSession ta
  { ta with clients := Heap.remove ta.clients client }

/-! ## Tokens and PINs -/

/-- `unregister_persistent_object`, where the memory for the new list may lack and each call on the
file of the database may fail: the return code, the list, and what was written. -/
def unregisterPersistentObject (token : ℕ) (dbObjs : List ℕ) (uuid : ℕ) (fails : Fin 4 → Bool) :
    Rc × List ℕ × List Act :=
  if uuid ∉ dbObjs then (.notFound, dbObjs, [])
  else if fails 0 then (.deviceMemory, dbObjs, [])
  else if fails 1 || fails 2 then (.generalError, dbObjs, [])
  -- The list in memory changes also where the write fails.
  else if fails 3 then (.generalError, dbObjs.erase uuid, [])
  else (.ok, dbObjs.erase uuid, [.writeObjs token (dbObjs.erase uuid)])

/-- A call that fails while the objects of a token are taken off its list. -/
structure UnregisterFailure where
  object : ℕ
  second : Bool
  call : Fin 4
  deriving DecidableEq

/-- The two tries of `entry_ck_token_initialize` to take an object off the list. -/
def unregisterTwice (fails : List UnregisterFailure) (n token : ℕ) (dbObjs : List ℕ) (uuid : ℕ) :
    Except Panic (List ℕ × List Act) :=
  match unregisterPersistentObject token dbObjs uuid fun call => ⟨n, false, call⟩ ∈ fails with
  | (.ok, dbObjs, acts) => .ok (dbObjs, acts)
  | (_, dbObjs, _) =>
    match unregisterPersistentObject token dbObjs uuid fun call => ⟨n, true, call⟩ ∈ fails with
    | (.ok, dbObjs, acts) => .ok (dbObjs, acts)
    | _ => .error .teePanic

def cleanupPersistentObject (ta : Ta) (token : ℕ) (obj : Object) : Except Panic (Ta × List Act) :=
  if obj.uuid ∈ (ta.tokens token).dbObjs then .error .assertion
  else
    .ok (ta.modifyToken token fun t =>
      { t with objects := t.objects.filter (·.address ≠ obj.address) }, [.deleteFile obj.uuid])

/-- The loop of `entry_ck_token_initialize` over the objects. -/
def removeObjects (fails : List UnregisterFailure) (token : ℕ) :
    ℕ → List Object → Ta → Except Panic (Ta × List Act)
  | _, [], ta => .ok (ta, [])
  | n, obj :: rest, ta => do
    let (dbObjs, acts) ← unregisterTwice fails n token (ta.tokens token).dbObjs obj.uuid
    let ta := ta.modifyToken token fun t => { t with dbObjs }
    let (ta, acts') ← cleanupPersistentObject ta token obj
    let (ta, acts'') ← removeObjects fails token (n + 1) rest ta
    .ok (ta, acts ++ acts' ++ acts'')

/-- `entry_ck_token_initialize`, where calls that take objects off the list may fail. -/
def initializeFailing (cfg : Config) (env : Env) (fails : List UnregisterFailure) (ta : Ta)
    (token : ℕ) (pin label : List UInt8) : Result :=
  if cfg.tokenCount ≤ token then ta.fail .slotIdInvalid
  else
    let main := (ta.tokens token).dbMain
    if main.so.locked then ta.fail .pinLocked
    else if ta.sessions.any (·.token = token) then ta.fail .sessionExists
    else
      match authenticateSo cfg env token main pin with
      | .error (rc, main, acts) => .ok (reply rc, ta.setMain token main, acts)
      | .ok (main, resets, acts) => do
        let main := main.initToken label
        let ta := ta.setMain token main
        let (ta, acts') ← removeObjects fails token 0 (ta.tokens token).objects ta
        .ok (reply .ok, ta, acts ++ [.writeMain token main (.user :: resets)] ++ acts')

/-- `entry_ck_token_initialize` on a storage that serves every call. -/
def entryCkTokenInitialize (cfg : Config) (env : Env) (ta : Ta) (token : ℕ)
    (pin label : List UInt8) :
    Result :=
  initializeFailing cfg env [] ta token pin label

def entryCkInitPin (cfg : Config) (env : Env) (ta : Ta) (session : Session)
    (pin : List UInt8) : Result :=
  if !session.state.isSo then ta.fail .userNotLoggedIn
  else
    let main := (ta.tokens session.token).dbMain
    if !main.tokenInitialized then .error .assertion
    else
      let (rc, main, acts) := setPin cfg env session.token main session.state.isReadWrite pin .user
      .ok (reply rc, ta.setMain session.token main, acts)

/-- `set_pin` after the old PIN was checked. -/
def setCheckedPin (cfg : Config) (env : Env) (ta : Ta) (session : Session) (role : Role)
    (pin : List UInt8) :
    Rc × Main × List Act → Result
  | (.ok, main, acts) =>
    let (rc, main, acts') := setPin cfg env session.token main session.state.isReadWrite pin role
    .ok (reply rc, ta.setMain session.token main, acts ++ acts')
  | (rc, main, acts) => .ok (reply rc, ta.setMain session.token main, acts)

def entryCkSetPin (cfg : Config) (env : Env) (ta : Ta) (session : Session)
    (oldPin pin : List UInt8) :
    Result :=
  let main := (ta.tokens session.token).dbMain
  if !session.state.isReadWrite then ta.fail .sessionReadOnly
  else if session.state.isSo then
    if !main.tokenInitialized then ta.fail .generalError
    else checkSoPin cfg env session.token main oldPin >>= setCheckedPin cfg env ta session .so pin
  else if !main.userPinInitialized then ta.fail .generalError
  else checkUserPin cfg env session.token main oldPin >>= setCheckedPin cfg env ta session .user pin

/-! ## Login and logout -/

def sessionLoginUser (ta : Ta) (session : Session) : Ta :=
  { ta with sessions := ta.sessions.map fun s =>
    if s.client = session.client ∧ s.token = session.token then
      { s with state := if s.state.isReadWrite then .rwUserFunctions else .roUserFunctions }
    else s }

def sessionLoginSo (ta : Ta) (session : Session) : Except Panic Ta :=
  if (ta.siblings session.client session.token).any (!·.state.isReadWrite) then .error .teePanic
  else .ok { ta with sessions := ta.sessions.map fun s =>
    if s.client = session.client ∧ s.token = session.token then { s with state := .rwSoFunctions }
    else s }

/-- The user types of `entry_ck_login`. -/
inductive UserType where
  | role (r : Role)
  | contextSpecific
  | other

def entryCkLogin (cfg : Config) (env : Env) (ta : Ta) (session : Session) (userType : UserType)
    (pin : List UInt8) : Result :=
  let main := (ta.tokens session.token).dbMain
  match userType with
  | .role .so =>
    if session.state.isSo then ta.fail .userAlreadyLoggedIn
    else if session.state.isUser then ta.fail .userAnotherAlreadyLoggedIn
    else if (ta.siblings session.client session.token).any (!·.state.isReadWrite) then
      ta.fail .sessionReadOnlyExists
    else do
      match ← checkSoPin cfg env session.token main pin with
      | (.ok, main, acts) =>
        let ta ← sessionLoginSo (ta.setMain session.token main) session
        .ok (reply .ok, ta, acts)
      | (rc, main, acts) => .ok (reply rc, ta.setMain session.token main, acts)
  | .role .user =>
    if session.state.isSo then ta.fail .userAnotherAlreadyLoggedIn
    else if session.state.isUser then ta.fail .userAlreadyLoggedIn
    else do
      match ← checkUserPin cfg env session.token main pin with
      | (.ok, main, acts) =>
        .ok (reply .ok, sessionLoginUser (ta.setMain session.token main) session, acts)
      | (rc, main, acts) => .ok (reply rc, ta.setMain session.token main, acts)
  | .contextSpecific => ta.fail .operationNotInitialized
  | .other => ta.fail .userTypeInvalid

def putPrivateHandle (client : ℕ) (ta : Ta) (obj : Object) : Ta :=
  if objectIsPrivate obj.attrs then putHandle client ta obj else ta

/-- The loop of `session_logout`. What it releases is of the session that was asked to log out. -/
def logoutSibling (session : Session) (ta : Ta) (sess : Session) : Ta :=
  let ta := ta.modifySession session.client session.handle fun s => { s with processing := none }
  let ta := (sess.objects.filter fun obj => objectIsPrivate obj.attrs).foldl
    (destroySessionObject sess.client sess.handle) ta
  let ta := (ta.tokens session.token).objects.foldl (putPrivateHandle session.client) ta
  let ta := ta.modifySession session.client session.handle fun s => { s with findCtx := none }
  ta.modifySession sess.client sess.handle fun s =>
    { s with state := if s.state.isReadWrite then .rwPublicSession else .roPublicSession }

def sessionLogout (ta : Ta) (session : Session) : Ta :=
  (ta.siblings session.client session.token).foldl (logoutSibling session) ta

def entryCkLogout (ta : Ta) (session : Session) : Result :=
  if session.state.isPublic then ta.fail .userNotLoggedIn
  else .ok (reply .ok, sessionLogout ta session, [])

end Optee.Pkcs11
