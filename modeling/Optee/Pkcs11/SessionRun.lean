import Optee.Lib.Run
import Optee.Pkcs11.Session

/-!
# Runs of the session commands of the PKCS#11 TA

The commands of `Session` by any clients, with the storage of the TA, which `init_persistent_db` of
`ta/pkcs11/src/persistent_token.c` reads when it is started. The power may be cut after any number
of the acts of a command.
-/

namespace Optee.Pkcs11

/-! ## Storage -/

structure DbFile where
  main : Main
  objs : Option (List ℕ)

structure Disk where
  db : ℕ → Option DbFile
  files : List (ℕ × Attrs)

def Disk.modifyDb (disk : Disk) (token : ℕ) (f : DbFile → DbFile) : Disk :=
  { disk with db := Function.update disk.db token ((disk.db token).map f) }

def Disk.act (disk : Disk) : Act → Disk
  | .writeMain token main _ => disk.modifyDb token fun f => { f with main }
  | .writeObjs token uuids => disk.modifyDb token fun f => { f with objs := some uuids }
  | .createDb token main => { disk with db := Function.update disk.db token (some ⟨main, none⟩) }
  -- What the file is longer by is zero.
  | .truncateDb token => disk.modifyDb token fun f => { f with objs := some (f.objs.getD []) }
  | .createFile uuid attrs => { disk with files := (uuid, attrs) :: disk.files }
  | .writeFile uuid attrs => { disk with files := Heap.modify disk.files uuid fun _ => attrs }
  | .deleteFile uuid => { disk with files := Heap.remove disk.files uuid }
  | .verify .. | .use _ => disk

def Disk.acts (disk : Disk) (acts : List Act) : Disk := acts.foldl Disk.act disk

def Disk.blank : Disk := ⟨fun _ => none, []⟩

/-! ## Start of the TA -/

def addTokenObject (token : ℕ) (ta : Ta) (uuid : ℕ) : Ta :=
  let ta' := ta.modifyToken token fun t => { t with objects := ⟨ta.next, none, uuid⟩ :: t.objects }
  { ta' with next := ta.next + 1 }

def initPersistentDb (disk : Disk) (token : ℕ) (ta : Ta) : Except Panic (Ta × List Act) :=
  match disk.db token with
  | some ⟨main, some uuids⟩ =>
    let ta := ta.modifyToken token fun t => { t with dbMain := main, dbObjs := uuids }
    .ok (uuids.foldl (addTokenObject token) ta, [])
  | some ⟨_, none⟩ => .error .teePanic
  | none =>
    .ok (ta.modifyToken token fun t => { t with dbMain := .fresh, dbObjs := [] },
      [.createDb token .fresh, .truncateDb token, .writeObjs token []])

/-- The memory of the TA before `pkcs11_init`. -/
def Ta.start : Ta where
  tokens := fun _ => ⟨.readWrite, 0, 0, [], .fresh, []⟩
  clients := []
  sessions := []
  next := 0

/-- The loop of `pkcs11_init`. -/
def initTokens (disk : Disk) : List ℕ → Ta → Except Panic (Ta × List Act)
  | [], ta => .ok (ta, [])
  | token :: rest, ta => do
    let (ta, acts) ← initPersistentDb disk token ta
    let (ta, acts') ← initTokens disk rest ta
    .ok (ta, acts ++ acts')

def pkcs11Init (cfg : Config) (disk : Disk) : Except Panic (Ta × List Act) :=
  initTokens disk (List.range cfg.tokenCount) .start

/-! ## Commands -/

inductive SessionCommand where
  | registerClient
  | unregisterClient (client : ℕ)
  | openSession (client token flags : ℕ)
  | closeSession (client handle : ℕ)
  | closeAllSessions (client token : ℕ)
  | tokenInitialize (env : Env) (token : ℕ) (pin label : List UInt8)
  | initPin (env : Env) (client handle : ℕ) (pin : List UInt8)
  | setPin (env : Env) (client handle : ℕ) (oldPin pin : List UInt8)
  | login (env : Env) (client handle : ℕ) (userType : UserType) (pin : List UInt8)
  | logout (client handle : ℕ)

def Ta.withClient (ta : Ta) (client : ℕ) (f : Result) : Result :=
  if (ta.clients.lookup client).isNone then ta.fail .argumentsBad else f

def Ta.withSession (ta : Ta) (client handle : ℕ) (f : Session → Result) : Result :=
  ta.withClient client
    (match ta.session client handle with
    | none => ta.fail .sessionHandleInvalid
    | some session => f session)

def SessionCommand.run (cfg : Config) (ta : Ta) : SessionCommand → Result
  | .registerClient => .ok (reply .ok, Pkcs11.registerClient ta, [])
  | .unregisterClient client =>
    ta.withClient client (.ok (reply .ok, Pkcs11.unregisterClient ta client, []))
  | .openSession client token flags =>
    ta.withClient client (entryCkOpenSession cfg ta client token flags)
  | .closeSession client handle => ta.withSession client handle (entryCkCloseSession ta)
  | .closeAllSessions client token =>
    ta.withClient client (entryCkCloseAllSessions cfg ta client token)
  | .tokenInitialize env token pin label => entryCkTokenInitialize cfg env ta token pin label
  | .initPin env client handle pin =>
    ta.withSession client handle fun session => entryCkInitPin cfg env ta session pin
  | .setPin env client handle oldPin pin =>
    ta.withSession client handle fun session => entryCkSetPin cfg env ta session oldPin pin
  | .login env client handle userType pin =>
    ta.withSession client handle fun session => entryCkLogin cfg env ta session userType pin
  | .logout client handle => ta.withSession client handle (entryCkLogout ta)

/-! ## Runs -/

structure World where
  ta : Ta
  disk : Disk
  history : List Act

def World.start (cfg : Config) (disk : Disk) : Except Panic World := do
  let (ta, acts) ← pkcs11Init cfg disk
  .ok ⟨ta, disk.acts acts, acts⟩

inductive SessionEvent where
  | command (c : SessionCommand)
  | cut (c : SessionCommand) (k : ℕ)

def SessionEvent.toCommand : SessionEvent → SessionCommand
  | .command c => c
  | .cut c _ => c

def SessionEvent.step (cfg : Config) (w : World) (event : SessionEvent) : Except Panic World := do
  let (_, ta, acts) ← event.toCommand.run cfg w.ta
  match event with
  | .command _ => .ok ⟨ta, w.disk.acts acts, w.history ++ acts⟩
  | .cut _ k =>
    let disk := w.disk.acts (acts.take k)
    let (ta, acts') ← pkcs11Init cfg disk
    .ok ⟨ta, disk.acts acts', w.history ++ acts.take k ++ acts'⟩

/-! ## Failures of the storage -/

/-- The calls on the storage that fail during a command: those of `update_persistent_db`, by number,
and those that take objects off the list of a token. -/
structure Failures where
  updates : List ℕ
  unregisters : List UnregisterFailure

def Act.isUpdate : Act → Bool
  | .writeMain .. => true
  | _ => false

/-- A command during which calls on the storage fail. `update_persistent_db` panics where a call of
it fails. -/
def SessionCommand.runFailing (cfg : Config) (fails : Failures) (ta : Ta)
    (c : SessionCommand) : Result := do
  let x ←
    match c with
    | .tokenInitialize env token pin label =>
      initializeFailing cfg env fails.unregisters ta token pin label
    | c => c.run cfg ta
  if fails.updates.any (· < x.2.2.countP Act.isUpdate) then .error .teePanic else .ok x

inductive StorageEvent where
  | event (e : SessionEvent)
  | failing (fails : Failures) (c : SessionCommand)

def StorageEvent.step (cfg : Config) (w : World) : StorageEvent → Except Panic World
  | .event e => e.step cfg w
  | .failing fails c => do
    let (_, ta, acts) ← c.runFailing cfg fails w.ta
    .ok ⟨ta, w.disk.acts acts, w.history ++ acts⟩

end Optee.Pkcs11
