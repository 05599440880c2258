import Optee.Crypto
import Optee.TaBusy

/-!
# Sessions and contexts of trusted applications

`core/kernel/tee_ta_manager.c`, with its callers in `core/tee/entry_std.c` and `core/tee/tee_svc.c`
and the loaders of `core/kernel/user_ta.c`, `core/kernel/pseudo_ta.c` and
`core/arch/arm/kernel/stmm_sp.c`, for any number of threads. Every section under `tee_ta_mutex` is
one step, and so is what a thread does between two of them.

Sessions and contexts are known by the number of their allocation, so that the use of one that was
freed is seen.
-/

namespace Optee.TaManager

/-- The login methods of `TEE_Identity`. -/
inductive Login where
  | loginPublic
  | reeKernel
  | user
  | group
  | application
  | applicationUser
  | applicationGroup
  | trustedApp
  deriving DecidableEq

structure Identity where
  login : Login
  uuid : Uuid
  deriving DecidableEq

/-- `KERN_IDENTITY`, `NSAPP_IDENTITY`, or the identity of a TA. -/
inductive Client where
  | kern
  | nsapp
  | ta (id : Identity)

/-- A parameter for `check_params`: whether it is a memory reference, its size, and whether it is
secure data path memory. -/
structure Param where
  memref : Bool
  size : ℕ
  sdp : Bool

inductive Kind where
  | user
  | pseudo
  | stmm
  deriving DecidableEq

/-- `struct tee_ta_ctx`, and how often it was taken off `tee_ctxes`, its state released and it
destroyed. -/
structure TaCtx where
  uuid : Uuid
  kind : Kind
  flags : TaFlags
  panicked : Bool
  refCount : ℕ
  busy : Bool
  isReleasing : Bool
  isInitializing : Bool
  unlinks : ℕ
  releases : ℕ
  destroys : ℕ

/-- `struct tee_ta_session`, the list it was put on, whether `enter_open_session` succeeded, whether
`tee_ta_open_session` returned it or left it behind, and whether it was freed. -/
structure Session (n : ℕ) where
  id : BitVec 32
  owner : Option ℕ
  ctx : Option ℕ
  clntId : Identity
  refCount : ℕ
  lockThread : Option (Fin n)
  unlink : Bool
  opened : Bool
  ready : Bool
  leaked : Bool
  freed : Bool

inductive Call where
  | open
  | invoke
  | close
  | cancel
  deriving DecidableEq

structure Return (n : ℕ) where
  thread : Fin n
  call : Call
  res : Except TeeError Unit
  deriving DecidableEq

/-- A call of `enter_invoke_cmd` or `enter_close_session`. -/
structure Delivery where
  session : ℕ
  opened : Bool

/-- What the threads share. Open sessions are of the normal world or of a TA. -/
structure Manager (n : ℕ) where
  sess : ℕ → Session n
  nextSess : ℕ
  ctx : ℕ → TaCtx
  nextCtx : ℕ
  lists : Option ℕ → List ℕ
  teeCtxes : List ℕ
  lock : SingleInstance n
  returns : List (Return n)
  deliveries : List Delivery

variable {n : ℕ}

def TaCtx.zero : TaCtx where
  uuid := ByteVec.zero 16
  kind := .user
  flags := ⟨false, false, false, false, false⟩
  panicked := false
  refCount := 0
  busy := false
  isReleasing := false
  isInitializing := false
  unlinks := 0
  releases := 0
  destroys := 0

def Session.zero : Session n where
  id := 0
  owner := none
  ctx := none
  clntId := ⟨.loginPublic, ByteVec.zero 16⟩
  refCount := 0
  lockThread := none
  unlink := false
  opened := false
  ready := false
  leaked := false
  freed := false

/-- Nothing was opened yet. -/
def Manager.empty : Manager n where
  sess _ := .zero
  nextSess := 0
  ctx _ := .zero
  nextCtx := 0
  lists _ := []
  teeCtxes := []
  lock := ⟨none, 0⟩
  returns := []
  deliveries := []

namespace Manager

def modSess (m : Manager n) (a : ℕ) (f : Session n → Session n) : Manager n :=
  { m with sess := Function.update m.sess a (f (m.sess a)) }

def modCtx (m : Manager n) (c : ℕ) (f : TaCtx → TaCtx) : Manager n :=
  { m with ctx := Function.update m.ctx c (f (m.ctx c)) }

/-- `TAILQ_REMOVE` of a session from the list it is on. -/
def unlist (m : Manager n) (a : ℕ) : Manager n :=
  let o := (m.sess a).owner
  { m with lists := Function.update m.lists o ((m.lists o).erase a) }

/-- `TAILQ_REMOVE` of a context from `tee_ctxes`. -/
def unlinkCtx (m : Manager n) (c : ℕ) : Manager n :=
  { m.modCtx c fun x => { x with unlinks := x.unlinks + 1 } with teeCtxes := m.teeCtxes.erase c }

def log (m : Manager n) (t : Fin n) (call : Call) (res : Except TeeError Unit) : Manager n :=
  { m with returns := ⟨t, call, res⟩ :: m.returns }

def deliver (m : Manager n) (a : ℕ) : Manager n :=
  { m with deliveries := ⟨a, (m.sess a).opened⟩ :: m.deliveries }

end Manager

/-- Why the core stops. -/
inductive Fault where
  /-- A session was used after it was freed. -/
  | useAfterFree
  | assert
  /-- The `panic()` of `tee_ta_set_busy`. -/
  | panic
  /-- `tee_ta_close_session` without references. -/
  | refCount
  /-- A session without a context. -/
  | badContext
  deriving DecidableEq

/-! ## Sections -/

/-- `tee_ta_find_session_nolock` -/
def teeTaFindSession (m : Manager n) (o : Option ℕ) (id : BitVec 32) : Option ℕ :=
  (m.lists o).find? fun a => (m.sess a).id = id

def useSession (m : Manager n) (a : ℕ) : Except Fault (Session n) :=
  if (m.sess a).freed then .error .useAfterFree else .ok (m.sess a)

def decSessionRefCount (m : Manager n) (a : ℕ) : Except Fault (Manager n) :=
  if (m.sess a).refCount = 0 then .error .assert
  else .ok (m.modSess a fun s => { s with refCount := s.refCount - 1 })

def teeTaPutSession (m : Manager n) (t : Fin n) (a : ℕ) : Except Fault (Manager n) := do
  let s ← useSession m a
  decSessionRefCount (if s.lockThread = some t
    then m.modSess a fun s => { s with lockThread := none } else m) a

def teeTaGetSession (m : Manager n) (t : Fin n) (o : Option ℕ) (id : BitVec 32) (exclusive : Bool) :
    Except Fault (Manager n × Option (ℕ × Bool)) :=
  match teeTaFindSession m o id with
  | none => .ok (m, none)
  | some a =>
    if (m.sess a).unlink then .ok (m, none)
    else
      let m := m.modSess a fun s => { s with refCount := s.refCount + 1 }
      if !exclusive then .ok (m, some (a, true))
      else if (m.sess a).lockThread = some t then .error .assert
      else if (m.sess a).lockThread = none then
        .ok (m.modSess a fun s => { s with lockThread := some t }, some (a, true))
      else .ok (m, some (a, false))

/-- `tee_ta_get_session` where it waits for the lock. -/
def waitSession (m : Manager n) (t : Fin n) (a : ℕ) : Except Fault (Manager n × Option Bool) := do
  let s ← useSession m a
  if s.unlink then
    return (← decSessionRefCount m a, some false)
  else if s.lockThread = none then
    return (m.modSess a fun s => { s with lockThread := some t }, some true)
  else
    return (m, none)

def nextId (id : BitVec 32) : BitVec 32 := if id + 1 = 0 then 1 else id + 1

/-- The loop of `new_session_id`. -/
def newSessionIdLoop (m : Manager n) (o : Option ℕ) : ℕ → BitVec 32 → BitVec 32
  | 0, _ => 0
  | count + 1, id =>
    if teeTaFindSession m o id = none then id else newSessionIdLoop m o count (nextId id)

def newSessionId (m : Manager n) (o : Option ℕ) : BitVec 32 :=
  newSessionIdLoop m o (2 ^ 32 - 1) <|
    match (m.lists o).getLast? with
    | none => 1
    | some a => nextId (m.sess a).id

def checkClient (s : Session n) : Client → Bool
  | .kern => true
  | .nsapp => s.clntId.login ≠ .trustedApp
  | .ta id => s.clntId = id

def checkParams (sdp : Bool) (m : Manager n) (s : Session n) (params : List Param) : Bool :=
  !sdp
    || (match s.ctx with
      | some c => (m.ctx c).flags.secureDataPath
      | none => false)
    || params.all fun p => !p.memref || p.size = 0 || !p.sdp

def trySetBusy (m : Manager n) (t : Fin n) (c : ℕ) : Section (Bool × Manager n) :=
  match teeTaTrySetBusy (m.ctx c).flags (m.ctx c).busy m.lock t with
  | .wait => .wait
  | .assert => .assert
  | .done (rc, busy, lock) =>
    .done (rc, { m.modCtx c fun x => { x with busy := busy } with lock := lock })

def clearBusy (m : Manager n) (t : Fin n) (c : ℕ) : Except Fault (Manager n) :=
  match teeTaClearBusy (m.ctx c).flags (m.ctx c).busy m.lock t with
  | .done (busy, lock) => .ok { m.modCtx c fun x => { x with busy := busy } with lock := lock }
  | _ => .error .assert

/-! ## Frames -/

/-- The arguments of `tee_ta_open_session`. -/
structure OpenArgs where
  owner : Option ℕ
  uuid : Uuid
  clntId : Identity
  params : List Param

/-- Where a call is. A session is `a` and a context `c`. -/
inductive Pc where
  -- `tee_ta_init_session`
  | init (x : OpenArgs)
  | initWait (x : OpenArgs) (a : ℕ)
  | initLoad (x : OpenArgs) (a : ℕ)
  | initStmm (x : OpenArgs) (a c : ℕ)
  | initUser (x : OpenArgs) (a c : ℕ)
  | initUndo (a : ℕ) (e : TeeError)
  | initFree (a : ℕ) (e : TeeError)
  -- `tee_ta_open_session`, and the return to its caller
  | openParams (x : OpenArgs) (a : ℕ)
  | openTry (x : OpenArgs) (a c : ℕ)
  | openEnter (x : OpenArgs) (a c : ℕ)
  | openTa (a c : ℕ)
  | openLeft (a c : ℕ) (res : Except TeeError Unit)
  | openRelease (a c : ℕ)
  | openClear (a c : ℕ) (res : Except TeeError Unit)
  | openPut (a : ℕ) (res : Except TeeError Unit)
  | openEnd (e : TeeError)
  | openDone (a : ℕ)
  -- `entry_invoke_command` and `syscall_invoke_ta_command`
  | invoke (o : Option ℕ) (id : BitVec 32) (clnt : Client) (params : List Param)
  | invokeWait (a : ℕ) (clnt : Client) (params : List Param)
  | invokeCheck (a : ℕ) (clnt : Client) (params : List Param)
  | invokeBusy (a c : ℕ)
  | invokeEnter (a c : ℕ)
  | invokeTa (a c : ℕ)
  | invokeLeft (a c : ℕ) (res : Except TeeError Unit)
  | invokeRelease (a c : ℕ)
  | invokeClear (a c : ℕ) (res : Except TeeError Unit)
  | invokePut (a : ℕ) (res : Except TeeError Unit)
  -- `entry_close_session` and `syscall_close_ta_session`, up to their lookup
  | close (o : Option ℕ) (id : BitVec 32) (clnt : Client)
  -- `tee_ta_close_session`
  | closeId (a : ℕ) (o : Option ℕ) (clnt : Client)
  | closeGet (a : ℕ) (o : Option ℕ) (id : BitVec 32) (clnt : Client)
  | closeWait (a : ℕ) (clnt : Client)
  | closeCheck (a : ℕ) (clnt : Client)
  | closePut (a : ℕ)
  | closeBusy (a c : ℕ)
  | closeEnter (a c : ℕ)
  | closeTa (a c : ℕ)
  -- `destroy_session`, with the context and whether the thread is inside it
  | closeUnlink (a : ℕ) (c : Option (ℕ × Bool))
  | closeUnlinkWait (a : ℕ) (c : Option (ℕ × Bool))
  | closeFree (a : ℕ) (c : Option (ℕ × Bool))
  | closeClear (c : ℕ)
  | closeDec (c : ℕ)
  -- the sessions of a TA are closed before its state is gone
  | drain (c : ℕ) (destroy : Bool)
  -- `entry_cancel`
  | cancel (id : BitVec 32)
  | cancelSet (a : ℕ)
  | cancelPut (a : ℕ) (res : Except TeeError Unit)

inductive Request where
  | open (uuid : Uuid) (clntId : Identity) (params : List Param)
  | invoke (id : BitVec 32) (params : List Param)
  | close (id : BitVec 32)
  | cancel (id : BitVec 32)

inductive Load where
  | stmm
  | pseudo (flags : TaFlags)
  | user

inductive Input where
  | call (req : Request)
  | go
  | fail (e : TeeError)
  | load (what : Load)
  | loaded (flags : TaFlags)
  | ret (res : Except TeeError Unit) (panics : Bool)

abbrev Next (n : ℕ) := Except Fault (Manager n × List Pc)

/-- How `tee_ta_init_session_with_context` ends. -/
inductive Lookup where
  | wait
  | notFound
  | busy
  | attach (c : ℕ)

def teeTaInitSessionWithContext (m : Manager n) (uuid : Uuid) : Lookup :=
  match m.teeCtxes.find? fun c => (m.ctx c).uuid = uuid with
  | none => .notFound
  | some c =>
    if (m.ctx c).kind = .user ∧ (m.ctx c).isInitializing then .wait
    else if !(m.ctx c).flags.singleInstance then .notFound
    else if !(m.ctx c).flags.multiSession ∧ (m.ctx c).refCount ≠ 0 then .busy
    else .attach c

def initLookup (m : Manager n) (x : OpenArgs) (a : ℕ) : Manager n × List Pc :=
  match teeTaInitSessionWithContext m x.uuid with
  | .wait => (m, [.initWait x a])
  | .notFound => (m, [.initLoad x a])
  | .busy => (m, [.initUndo a .busy])
  | .attach c =>
    ((m.modCtx c fun y => { y with refCount := y.refCount + 1 }).modSess a fun s =>
      { s with ctx := some c }, [.openParams x a])

def newCtx (m : Manager n) (a : ℕ) (ctx : TaCtx) : Manager n :=
  ({ m with ctx := Function.update m.ctx m.nextCtx ctx, nextCtx := m.nextCtx + 1 }).modSess a
    fun s => { s with ctx := some m.nextCtx }

def markPanicked (m : Manager n) (c : ℕ) (panics : Bool) : Manager n :=
  m.modCtx c fun x => { x with panicked := x.panicked || (panics && x.kind = .user) }

def releaseTaCtx (m : Manager n) (c : ℕ) (next : Pc) : Manager n × List Pc :=
  if (m.ctx c).isReleasing then (m, [next])
  else ((m.modCtx c fun x => { x with isReleasing := true }).unlinkCtx c, [.drain c false, next])

def setBusy (m : Manager n) (t : Fin n) (c : ℕ) (here next : Pc) : Next n :=
  match trySetBusy m t c with
  | .wait => .ok (m, [here])
  | .assert => .error .assert
  | .done (true, m) => .ok (m, [next])
  | .done (false, _) => .error .panic

/-- The rest of `tee_ta_unlink_session`. -/
def unlinkSession (m : Manager n) (a : ℕ) (c : Option (ℕ × Bool)) : Manager n × List Pc :=
  if (m.sess a).refCount ≠ 1 then (m, [.closeUnlinkWait a c]) else (m.unlist a, [.closeFree a c])

/-- The last section of `tee_ta_close_session`. -/
def putCtx (m : Manager n) (t : Fin n) (c : ℕ) : Next n :=
  let x := m.ctx c
  if x.refCount = 0 then .error .refCount
  else
    let m := m.modCtx c fun x => { x with refCount := x.refCount - 1 }
    let keepAlive := x.flags.instanceKeepAlive && x.flags.singleInstance
    if x.refCount - 1 = 0 ∧ (x.panicked || !keepAlive) then
      let m := if x.isReleasing then m
        else (m.unlinkCtx c).modCtx c fun x => { x with isReleasing := true }
      .ok (m, [.drain c true])
    else .ok (m.log t .close (.ok ()), [])

/-- One step of the innermost call of a thread. -/
def Pc.step (sdp : Bool) (m : Manager n) (t : Fin n) (i : Input) (pc : Pc) : Next n :=
  match pc with
  | .init x =>
    match i with
    | .go =>
      let id := newSessionId m x.owner
      if id = 0 then .ok (m.log t .open (.error .overflow), [])
      else
        let a := m.nextSess
        let m := { m with
          sess := Function.update m.sess a
            { Session.zero with id := id, owner := x.owner, refCount := 1 }
          nextSess := a + 1
          lists := Function.update m.lists x.owner (m.lists x.owner ++ [a]) }
        .ok (initLookup m x a)
    | .fail _ => .ok (m.log t .open (.error .outOfMemory), [])
    | _ => .ok (m, [pc])
  | .initWait x a => .ok (initLookup m x a)
  | .initLoad x a =>
    match i with
    | .load .stmm => .ok (newCtx m a { TaCtx.zero with
        uuid := x.uuid, kind := .stmm, refCount := 1, isInitializing := true
        flags := ⟨true, false, true, false, false⟩ }, [.initStmm x a m.nextCtx])
    | .load (.pseudo flags) =>
      let m' := newCtx m a { TaCtx.zero with
        uuid := x.uuid, kind := .pseudo, refCount := 1, flags := flags }
      .ok ({ m' with teeCtxes := m'.teeCtxes ++ [m.nextCtx] }, [.openParams x a])
    | .load .user =>
      let m' := newCtx m a { TaCtx.zero with
        uuid := x.uuid, kind := .user, refCount := 1, isInitializing := true }
      .ok ({ m' with teeCtxes := m'.teeCtxes ++ [m.nextCtx] }, [.initUser x a m.nextCtx])
    | .fail e => .ok (m, [.initUndo a e])
    | _ => .ok (m, [pc])
  | .initStmm x a c =>
    match i with
    | .go =>
      let m := m.modCtx c fun y => { y with isInitializing := false }
      .ok ({ m with teeCtxes := m.teeCtxes ++ [c] }, [.openParams x a])
    | .fail e =>
      .ok ((m.modSess a fun s => { s with ctx := none }).modCtx c fun y =>
        { y with destroys := y.destroys + 1 }, [.initUndo a e])
    | _ => .ok (m, [pc])
  | .initUser x a c =>
    match i with
    | .loaded flags => .ok (m.modCtx c fun y =>
        { y with isInitializing := false, flags := flags }, [.openParams x a])
    | .fail e =>
      .ok (((m.modSess a fun s => { s with ctx := none }).unlinkCtx c).modCtx c fun y =>
        { y with destroys := y.destroys + 1 }, [.initUndo a e])
    | _ => .ok (m, [pc])
  | .initUndo a e => do
    let _ ← useSession m a
    .ok (m.unlist a, [.initFree a e])
  | .initFree a e => do
    let _ ← useSession m a
    .ok ((m.modSess a fun s => { s with freed := true }).log t .open (.error e), [])
  | .openParams x a => do
    let s ← useSession m a
    if !checkParams sdp m s x.params then
      .ok ((m.modSess a fun s => { s with leaked := true }).log t .open (.error .badParameters), [])
    else
      match s.ctx with
      | none => .error .badContext
      | some c => .ok (m, [.openTry x a c])
  | .openTry x a c =>
    match trySetBusy m t c with
    | .wait => .ok (m, [pc])
    | .assert => .error .assert
    | .done (true, m) => .ok (m, [.openEnter x a c])
    | .done (false, m) => .ok (m, [.openPut a (.error .busy)])
  | .openEnter x a c => do
    let _ ← useSession m a
    if (m.ctx c).panicked then .ok (m, [.openLeft a c (.ok ())])
    else .ok (m.modSess a fun s => { s with clntId := x.clntId }, [.openTa a c])
  | .openTa a c =>
    match i with
    | .ret res panics => do
      let _ ← useSession m a
      .ok ((markPanicked m c panics).modSess a fun s => { s with
        opened := res.isOk && !(panics && (m.ctx c).kind = .user) }, [.openLeft a c res])
    | _ => .ok (m, [pc])
  | .openLeft a c res =>
    if (m.ctx c).panicked then .ok (m, [.openRelease a c]) else .ok (m, [.openClear a c res])
  | .openRelease a c => .ok (releaseTaCtx m c (.openClear a c (.error .targetDead)))
  | .openClear a c res => do
    let m ← clearBusy m t c
    .ok (m, [.openPut a res])
  | .openPut a res => do
    let s ← useSession m a
    let m ← teeTaPutSession m t a
    match res with
    | .ok () => .ok (m, [.openDone a])
    | .error e => .ok (m, [.closeId a s.owner .kern, .openEnd e])
  | .openEnd e => .ok (m.log t .open (.error e), [])
  | .openDone a => do
    let _ ← useSession m a
    .ok ((m.modSess a fun s => { s with ready := true }).log t .open (.ok ()), [])
  | .invoke o id clnt params => do
    match ← teeTaGetSession m t o id true with
    | (m, none) => .ok (m.log t .invoke (.error .badParameters), [])
    | (m, some (a, true)) => .ok (m, [.invokeCheck a clnt params])
    | (m, some (a, false)) => .ok (m, [.invokeWait a clnt params])
  | .invokeWait a clnt params => do
    match ← waitSession m t a with
    | (m, none) => .ok (m, [pc])
    | (m, some true) => .ok (m, [.invokeCheck a clnt params])
    | (m, some false) => .ok (m.log t .invoke (.error .badParameters), [])
  | .invokeCheck a clnt params => do
    let s ← useSession m a
    match i with
    | .fail e => .ok (m, [.invokePut a (.error e)])
    | _ =>
      if !checkClient s clnt || !checkParams sdp m s params then
        .ok (m, [.invokePut a (.error .badParameters)])
      else
        match s.ctx with
        | none => .error .badContext
        | some c => .ok (m, [.invokeBusy a c])
  | .invokeBusy a c => setBusy m t c pc (.invokeEnter a c)
  | .invokeEnter a c => do
    let _ ← useSession m a
    if (m.ctx c).panicked then .ok (m, [.invokeLeft a c (.ok ())])
    else .ok (m.deliver a, [.invokeTa a c])
  | .invokeTa a c =>
    match i with
    | .ret res panics => do
      let _ ← useSession m a
      .ok (markPanicked m c panics, [.invokeLeft a c res])
    | _ => .ok (m, [pc])
  | .invokeLeft a c res =>
    if (m.ctx c).panicked then .ok (m, [.invokeRelease a c]) else .ok (m, [.invokeClear a c res])
  | .invokeRelease a c => .ok (releaseTaCtx m c (.invokeClear a c (.error .targetDead)))
  | .invokeClear a c res => do
    let m ← clearBusy m t c
    .ok (m, [.invokePut a res])
  | .invokePut a res => do
    let m ← teeTaPutSession m t a
    .ok (m.log t .invoke res, [])
  | .close o id clnt =>
    match teeTaFindSession m o id with
    | none => .ok (m.log t .close (.error .itemNotFound), [])
    | some a => .ok (m, [.closeId a o clnt])
  | .closeId a o clnt => do
    let s ← useSession m a
    .ok (m, [.closeGet a o s.id clnt])
  | .closeGet _ o id clnt => do
    match ← teeTaGetSession m t o id true with
    | (m, none) => .ok (m.log t .close (.error .itemNotFound), [])
    | (m, some (a, true)) => .ok (m, [.closeCheck a clnt])
    | (m, some (a, false)) => .ok (m, [.closeWait a clnt])
  | .closeWait a clnt => do
    match ← waitSession m t a with
    | (m, none) => .ok (m, [pc])
    | (m, some true) => .ok (m, [.closeCheck a clnt])
    | (m, some false) => .ok (m.log t .close (.error .itemNotFound), [])
  | .closeCheck a clnt => do
    let s ← useSession m a
    if !checkClient s clnt then .ok (m, [.closePut a])
    else
      match s.ctx with
      | none => .ok (m, [.closeUnlink a none])
      | some c =>
        if (m.ctx c).panicked then .ok (m, [.closeUnlink a (some (c, false))])
        else .ok (m, [.closeBusy a c])
  | .closePut a => do
    let m ← teeTaPutSession m t a
    .ok (m.log t .close (.error .badParameters), [])
  | .closeBusy a c => setBusy m t c pc (.closeEnter a c)
  | .closeEnter a c => do
    let _ ← useSession m a
    if (m.ctx c).kind = .user ∧ (m.ctx c).isInitializing then
      .ok (m, [.closeUnlink a (some (c, true))])
    else .ok (m.deliver a, [.closeTa a c])
  | .closeTa a c =>
    match i with
    | .ret _ panics => do
      let _ ← useSession m a
      .ok (markPanicked m c panics, [.closeUnlink a (some (c, true))])
    | _ => .ok (m, [pc])
  | .closeUnlink a c => do
    let s ← useSession m a
    if s.refCount = 0 ∨ s.lockThread ≠ some t ∨ s.unlink then .error .assert
    else .ok (unlinkSession (m.modSess a fun s => { s with unlink := true }) a c)
  | .closeUnlinkWait a c => do
    let _ ← useSession m a
    .ok (unlinkSession m a c)
  | .closeFree a c => do
    let _ ← useSession m a
    let m := m.modSess a fun s => { s with freed := true }
    match c with
    | none => .ok (m.log t .close (.ok ()), [])
    | some (c, true) => .ok (m, [.closeClear c])
    | some (c, false) => .ok (m, [.closeDec c])
  | .closeClear c => do
    let m ← clearBusy m t c
    .ok (m, [.closeDec c])
  | .closeDec c => putCtx m t c
  | .drain c destroy =>
    match m.lists (some c) with
    | a :: _ => .ok (m, [.closeId a (some c) .kern, pc])
    | [] =>
      if destroy then
        .ok ((m.modCtx c fun x => { x with destroys := x.destroys + 1 }).log t .close (.ok ()), [])
      else .ok (m.modCtx c fun x => { x with releases := x.releases + 1 }, [])
  | .cancel id => do
    match ← teeTaGetSession m t none id false with
    | (m, some (a, _)) => .ok (m, [.cancelSet a])
    | (m, none) => .ok (m.log t .cancel (.error .badParameters), [])
  | .cancelSet a => do
    let s ← useSession m a
    if checkClient s .nsapp then .ok (m, [.cancelPut a (.ok ())])
    else .ok (m, [.cancelPut a (.error .badParameters)])
  | .cancelPut a res => do
    let m ← teeTaPutSession m t a
    .ok (m.log t .cancel res, [])

/-! ## Threads -/

structure State (n : ℕ) where
  mgr : Manager n
  threads : Fin n → List Pc

def State.empty : State n := ⟨.empty, fun _ => []⟩

/-- A request of the normal world, which has not the login of a TA. -/
def Request.fromNormalWorld : Request → Option Pc
  | .open uuid clntId params =>
    if clntId.login = .trustedApp then none else some (.init ⟨none, uuid, clntId, params⟩)
  | .invoke id params => some (.invoke none id .nsapp params)
  | .close id => some (.close none id .nsapp)
  | .cancel id => some (.cancel id)

/-- The first frame of a request of the TA with context `c`. -/
def Request.fromTa (c : ℕ) (uuid : Uuid) : Request → Option Pc
  | .open uuid' _ params => some (.init ⟨some c, uuid', ⟨.trustedApp, uuid⟩, params⟩)
  | .invoke id params => some (.invoke (some c) id (.ta ⟨.trustedApp, uuid⟩) params)
  | .close id => some (.close (some c) id (.ta ⟨.trustedApp, uuid⟩))
  | .cancel _ => none

def Pc.running : Pc → Option ℕ
  | .openTa _ c => some c
  | .invokeTa _ c => some c
  | .closeTa _ c => some c
  | _ => none

def State.request (s : State n) (t : Fin n) (req : Request) : Option Pc :=
  match s.threads t with
  | [] => req.fromNormalWorld
  | pc :: _ => pc.running.bind fun c =>
    if (s.mgr.ctx c).kind = .user then req.fromTa c (s.mgr.ctx c).uuid else none

/-- A step of a thread. -/
def State.step (sdp : Bool) (s : State n) (e : Fin n × Input) : Except Fault (State n) :=
  match e.2, s.threads e.1 with
  | .call req, fs =>
    match s.request e.1 req with
    | none => .ok s
    | some pc => .ok { s with threads := Function.update s.threads e.1 (pc :: fs) }
  | _, [] => .ok s
  | i, pc :: fs => do
    let (m, fs') ← pc.step sdp s.mgr e.1 i
    .ok ⟨m, Function.update s.threads e.1 (fs' ++ fs)⟩

/-! ## What frames have of sessions -/

/-- What a frame does with a session. -/
inductive Role where
  /-- Opens it, with the first reference. -/
  | opener
  /-- Frees it, after it could not be opened. -/
  | undoer
  /-- Returns it, without a reference. -/
  | returner
  /-- Is about to close it, without a reference. -/
  | finder
  /-- Waits for its lock, to close it. -/
  | closerWait
  /-- Closes it. -/
  | closer
  /-- Waits for the other references, to close it. -/
  | unlinker
  /-- Frees it. -/
  | remover
  /-- Waits for its lock, to use it. -/
  | userWait
  /-- Uses it. -/
  | user
  /-- Cancels its command. -/
  | canceller
  deriving DecidableEq

def Pc.role : Pc → Option (ℕ × Role)
  | .initWait _ a | .initLoad _ a | .initStmm _ a _ | .initUser _ a _ | .initUndo a _
  | .openParams _ a | .openTry _ a _ | .openEnter _ a _ | .openTa a _ | .openLeft a _ _
  | .openRelease a _ | .openClear a _ _ | .openPut a _ => some (a, .opener)
  | .initFree a _ => some (a, .undoer)
  | .openDone a => some (a, .returner)
  | .closeId a _ _ | .closeGet a _ _ _ => some (a, .finder)
  | .closeWait a _ => some (a, .closerWait)
  | .closeCheck a _ | .closeBusy a _ | .closeEnter a _ | .closeTa a _ | .closeUnlink a _ =>
    some (a, .closer)
  | .closeUnlinkWait a _ => some (a, .unlinker)
  | .closeFree a _ => some (a, .remover)
  | .invokeWait a _ _ => some (a, .userWait)
  | .invokeCheck a _ _ | .invokeBusy a _ | .invokeEnter a _ | .invokeTa a _ | .invokeLeft a _ _
  | .invokeRelease a _ | .invokeClear a _ _ | .invokePut a _ | .closePut a => some (a, .user)
  | .cancelSet a | .cancelPut a _ => some (a, .canceller)
  | .init _ | .openEnd _ | .invoke _ _ _ _ | .close _ _ _ | .closeClear _ | .closeDec _
  | .drain _ _ | .cancel _ => none

namespace Role

def refs : Role → ℕ
  | returner | finder => 0
  | _ => 1

def locks : Role → ℕ
  | closer | unlinker | remover | user => 1
  | _ => 0

def opens : Role → ℕ
  | opener | undoer | returner => 1
  | _ => 0

def closes : Role → ℕ
  | finder | closerWait | closer | unlinker | remover => 1
  | _ => 0

def uses : Role → ℕ
  | userWait | user | canceller => 1
  | _ => 0

def unlinks : Role → ℕ
  | unlinker | remover => 1
  | _ => 0

def offs : Role → ℕ
  | undoer | remover => 1
  | _ => 0

end Role

def State.roles (s : State n) (t : Fin n) : List (ℕ × Role) := (s.threads t).filterMap Pc.role

/-- `tee_ta_open_session` is through with the session. -/
def Session.settled (σ : Session n) : Bool := σ.ready || σ.leaked

/-- What a frame does with a context itself. -/
inductive CtxRole where
  /-- Loads it. -/
  | loads
  /-- Has a reference of a session that it freed. -/
  | owes
  /-- Closes the sessions of its TA. -/
  | releases
  /-- Closes the sessions of its TA, to destroy it. -/
  | destroys
  deriving DecidableEq

def Pc.ctxRole : Pc → Option (ℕ × CtxRole)
  | .initStmm _ _ c | .initUser _ _ c => some (c, .loads)
  | .closeClear c | .closeDec c => some (c, .owes)
  | .drain c false => some (c, .releases)
  | .drain c true => some (c, .destroys)
  | _ => none

def State.ctxRoles (s : State n) (t : Fin n) : List (ℕ × CtxRole) :=
  (s.threads t).filterMap Pc.ctxRole

def Pc.inside : Pc → Option ℕ
  | .openEnter _ _ c | .openTa _ c | .openLeft _ c _ | .openRelease _ c | .openClear _ c _
  | .invokeEnter _ c | .invokeTa _ c | .invokeLeft _ c _ | .invokeRelease _ c | .invokeClear _ c _
  | .closeEnter _ c | .closeTa _ c | .closeClear c => some c
  | .closeUnlink _ (some (c, true)) | .closeUnlinkWait _ (some (c, true))
  | .closeFree _ (some (c, true)) => some c
  | _ => none

def State.inside (s : State n) (t : Fin n) : List ℕ := (s.threads t).filterMap Pc.inside

def State.NotClosing (s : State n) (a : ℕ) : Prop := ∀ t, ∀ p ∈ s.roles t, p.1 = a → p.2.closes = 0

def Pc.finds (m : Manager n) : Pc → Option (ℕ × Bool)
  | .invoke o id _ _ => (teeTaFindSession m o id).map (·, false)
  | .cancel id => (teeTaFindSession m none id).map (·, false)
  | .close o id _ => (teeTaFindSession m o id).map (·, true)
  | .drain c _ => (m.lists (some c)).head?.map (·, true)
  | _ => none

def State.top (s : State n) (e : Fin n × Input) : Option Pc :=
  match e.2 with
  | .call _ => none
  | _ => (s.threads e.1).head?

def FindsOpen (s : State n) (e : Fin n × Input) : Prop :=
  ∀ pc ∈ s.top e, ∀ p ∈ pc.finds s.mgr,
    (s.mgr.sess p.1).settled = true ∧ (p.2 = true → s.NotClosing p.1)

instance (s : State n) (a : ℕ) : Decidable (s.NotClosing a) :=
  inferInstanceAs (Decidable (∀ t, ∀ p ∈ s.roles t, p.1 = a → p.2.closes = 0))

instance (s : State n) (e : Fin n × Input) : Decidable (FindsOpen s e) :=
  inferInstanceAs (Decidable (∀ pc ∈ s.top e, ∀ p ∈ pc.finds s.mgr, _ ∧ _))

/-- A TA opens sessions, or panics. -/
def Pc.opensOk (m : Manager n) (t : Fin n) (i : Input) : Pc → Bool
  | .openTry _ _ c =>
    match trySetBusy m t c with
    | .done (false, _) => false
    | _ => true
  | .openTa _ c =>
    match i with
    | .ret (.error _) panics => panics && (m.ctx c).kind = .user
    | _ => true
  | _ => true

def FindsReady (s : State n) (e : Fin n × Input) : Prop :=
  ∀ pc ∈ s.top e, (∀ p ∈ pc.finds s.mgr, (s.mgr.sess p.1).ready = true)
    ∧ pc.opensOk s.mgr e.1 e.2 = true

instance (s : State n) (e : Fin n × Input) : Decidable (FindsReady s e) :=
  inferInstanceAs (Decidable (∀ pc ∈ s.top e, (∀ p ∈ pc.finds s.mgr, _ = _) ∧ _ = _))

end Optee.TaManager
