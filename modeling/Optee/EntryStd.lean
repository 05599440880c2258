import Mathlib.Data.Nat.Notation
import Optee.Lib.Run
import Optee.Result
import Optee.Util

/-!
# Parameters of a message from the normal world

`core/tee/entry_std.c`: `copy_in_params` takes a reference to each memory object it finds for up to
four parameters, and `cleanup_shm_refs` is to give them back. `core/kernel/msg_param.c` makes an
object for memory that comes as a list of pages.
-/

namespace Optee.EntryStd

/-- Widths of `size_t` and `paddr_t`, `CFG_CORE_FFA` and `CFG_CORE_DYN_SHM`. -/
structure Config where
  bits : ℕ
  paddrBits : ℕ
  ffa : Bool
  dynShm : Bool

/-! ## Memory objects -/

inductive Kind where
  | phys (pa : ℕ)
  | regShm (guarded : Bool)
  | ffa
  deriving DecidableEq

structure Mobj where
  addr : ℕ
  kind : Kind
  cookie : ℕ
  size : ℕ
  pageOffset : ℕ
  refc : ℕ

structure State where
  mobjs : List Mobj
  next : ℕ

namespace State

def addrs (s : State) : List ℕ := s.mobjs.map Mobj.addr

def find (s : State) (a : ℕ) : Option Mobj := s.mobjs.find? (·.addr = a)

def refc (s : State) (a : ℕ) : ℕ := ((s.find a).map Mobj.refc).getD 0

def modify (s : State) (a : ℕ) (f : Mobj → Mobj) : State :=
  { s with mobjs := s.mobjs.map fun m => if m.addr = a then f m else m }

def remove (s : State) (a : ℕ) : State :=
  { s with mobjs := s.mobjs.filter fun m => m.addr ≠ a }

end State

def Mobj.setRefc (m : Mobj) (n : ℕ) : Mobj := { m with refc := n }

def mobjGet (s : State) (m : Mobj) : TeeResult State :=
  if m.refc = 0 then .error .panic else .ok (s.modify m.addr (·.setRefc (m.refc + 1)))

/-- The last reference is gone: an object of the message's own is freed, other shared memory may be
used again. -/
def mobjFree (s : State) (m : Mobj) : State :=
  match m.kind with
  | .regShm true | .phys _ => s.remove m.addr
  | .regShm false | .ffa => s.modify m.addr (·.setRefc 0)

def mobjPut (s : State) (a : Option ℕ) : TeeResult State :=
  match a with
  | none => .ok s
  | some a =>
    match s.find a with
    | none => .error .panic
    | some m =>
      if m.refc = 0 then .error .panic
      else if m.refc = 1 then .ok (mobjFree s m)
      else .ok (s.modify a (·.setRefc (m.refc - 1)))

/-! ## Looking memory up -/

def Config.bufferInside (cfg : Config) (b bl a al : ℕ) : Bool :=
  let last (x xl : ℕ) := (x + 2 ^ cfg.paddrBits - 1 + xl) % 2 ^ cfg.paddrBits
  b ≤ last b bl && a ≤ last a al && bl ≠ 0 && al ≠ 0 && a ≤ b && last b bl ≤ last a al

def State.area (cfg : Config) (s : State) (pa sz : ℕ) : Option Mobj :=
  s.mobjs.find? fun m =>
    match m.kind with
    | .phys b => cfg.bufferInside pa (max sz 1) b m.size
    | .regShm _ | .ffa => false

/-- `reg_shm_find_unlocked`. -/
def State.regShm (s : State) (cookie : ℕ) : Option Mobj :=
  s.mobjs.find? fun m =>
    match m.kind with
    | .regShm _ => m.cookie = cookie
    | .phys _ | .ffa => false

/-- What `mobj_ffa_get_by_cookie` finds. The offset is fixed while the object is in use. -/
def State.ffaShm (s : State) (cookie internalOffs : ℕ) : Option Mobj :=
  if smallPageSize ≤ internalOffs then none
  else (s.mobjs.find? fun m => m.kind = .ffa ∧ m.cookie = cookie).filter fun m =>
    m.refc = 0 ∨ m.pageOffset = internalOffs

def Mobj.activate (m : Mobj) (internalOffs : ℕ) : Mobj :=
  { m with refc := 1, size := m.size + m.pageOffset - internalOffs, pageOffset := internalOffs }

/-- `mobj_ffa_get_by_cookie` for an object that was found. -/
def mobjFfaGet (s : State) (m : Mobj) (internalOffs : ℕ) : State :=
  if m.refc = 0 then s.modify m.addr (·.activate internalOffs)
  else s.modify m.addr (·.setRefc (m.refc + 1))

/-- The pages of a buffer in `msg_param_mobj_from_noncontig`, unless that overflows. -/
def Config.noncontigPages (cfg : Config) (bufPtr size : ℕ) : Option ℕ :=
  let sizePlusOffs := size + bufPtr % smallPageSize
  let numPages := (sizePlusOffs + 2 ^ cfg.bits - 1) % 2 ^ cfg.bits / smallPageSize + 1
  if 2 ^ cfg.bits ≤ sizePlusOffs then none
  else if 2 ^ cfg.bits ≤ numPages * (cfg.paddrBits / 8) then none
  else some numPages

/-- What `mobj_reg_shm_alloc` puts at the head of its list. -/
def State.newRegShm (s : State) (numPages pageOffset cookie : ℕ) : Mobj where
  addr := s.next
  kind := .regShm true
  cookie := cookie
  size := numPages * smallPageSize - pageOffset
  pageOffset := pageOffset
  refc := 1

def State.push (s : State) (m : Mobj) : State := ⟨m :: s.mobjs, s.next + 1⟩

/-! ## Parameters -/

/-- The values of `OPTEE_MSG_ATTR_TYPE_*`, each but `none` for input, output and both. FF-A memory
has those of registered memory. -/
inductive ParamType where
  | none
  | value
  | rmem
  | tmem
  | unknown

def ParamType.ofAttr : ℕ → ParamType
  | 0 => .none
  | 1 | 2 | 3 => .value
  | 5 | 6 | 7 => .rmem
  | 9 | 10 | 11 => .tmem
  | _ => .unknown

/-- `struct optee_msg_param`, with the three words that its union shares. `pagesOk` is whether the
list of pages of a non-contiguous buffer makes an object. -/
structure Param where
  attr : ℕ
  w0 : ℕ
  w1 : ℕ
  w2 : ℕ
  pagesOk : Bool

namespace Param

/-- The attributes under `OPTEE_MSG_ATTR_TYPE_MASK`. -/
def masked (p : Param) : ℕ := p.attr % 256

def type (p : Param) : ParamType := .ofAttr p.masked

def isMeta (p : Param) : Bool := p.attr.testBit 8

def noncontig (p : Param) : Bool := p.attr.testBit 9

/-- `size` of `tmem`, `rmem` and `fmem` as a `size_t`. -/
def size (cfg : Config) (p : Param) : ℕ := p.w1 % 2 ^ cfg.bits

def bufPtr (cfg : Config) (p : Param) : ℕ := p.w0 % 2 ^ cfg.paddrBits

def rmemOffs (cfg : Config) (p : Param) : ℕ := p.w0 % 2 ^ cfg.bits

/-- `offs_high` and `offs_low`. -/
def fmemOffs (cfg : Config) (p : Param) : ℕ :=
  (p.w0 / 2 ^ 32 % 2 ^ 16 * 2 ^ 32 + p.w0 % 2 ^ 32) % 2 ^ cfg.bits

def internalOffs (p : Param) : ℕ := p.w0 / 2 ^ 48 % 2 ^ 16

/-- With `OPTEE_MSG_FMEM_INVALID_GLOBAL_ID`. -/
def fmemNull (cfg : Config) (p : Param) : Bool := p.w2 = 2 ^ 64 - 1 && p.size cfg = 0

end Param

structure ParamMem where
  mobj : Option ℕ
  offs : ℕ
  size : ℕ

def ParamMem.null : ParamMem := ⟨none, 0, 0⟩

inductive TaParam where
  | zero
  | value (a b : ℕ)
  | memref (mem : ParamMem)

abbrev Setting := State × ParamMem × TeeResult Unit

def checkInside (cfg : Config) (m : Mobj) (offs sz : ℕ) : TeeResult Unit :=
  if 2 ^ cfg.bits ≤ offs + sz ∨ m.size < offs + sz then .error .security else .ok ()

def setFmemParam (cfg : Config) (s : State) (p : Param) : TeeResult Setting :=
  if p.fmemNull cfg then .ok (s, .null, .ok ())
  else
    match s.ffaShm p.w2 p.internalOffs with
    | none => .ok (s, .null, .error .badParameters)
    | some m =>
      let s := mobjFfaGet s m p.internalOffs
      let size := if m.refc = 0 then (m.activate p.internalOffs).size else m.size
      .ok (s, ⟨some m.addr, p.fmemOffs cfg, p.size cfg⟩,
        checkInside cfg { m with size := size } (p.fmemOffs cfg) (p.size cfg))

def setTmemParam (cfg : Config) (s : State) (p : Param) : TeeResult Setting :=
  if p.bufPtr cfg = 0 then .ok (s, .null, .ok ())
  else if p.noncontig then
    match if cfg.dynShm && p.pagesOk then cfg.noncontigPages (p.bufPtr cfg) (p.size cfg)
      else none with
    | none => .ok (s, .null, .error .badParameters)
    | some numPages =>
      let m := s.newRegShm numPages (p.bufPtr cfg % smallPageSize) p.w2
      .ok (s.push m, ⟨some m.addr, 0, p.size cfg⟩, .ok ())
  else
    match s.area cfg (p.bufPtr cfg) (p.size cfg) with
    | none => .ok (s, .null, .error .badParameters)
    | some m => do
      let s ← mobjGet s m
      let b := match m.kind with
        | .phys b => b
        | .regShm _ | .ffa => 0
      .ok (s, ⟨some m.addr, p.bufPtr cfg - b, p.size cfg⟩, .ok ())

def setRmemParam (cfg : Config) (s : State) (p : Param) : TeeResult Setting :=
  match s.regShm p.w2 with
  | none => .ok (s, .null, .error .badParameters)
  | some m => do
    let s ← mobjGet s m
    .ok (s, ⟨some m.addr, p.rmemOffs cfg, p.size cfg⟩,
      checkInside cfg m (p.rmemOffs cfg) (p.size cfg))

/-- One parameter in `copy_in_params`. -/
def copyInParam (cfg : Config) (s : State) (p : Param) :
    TeeResult (State × TaParam × TeeResult Unit) :=
  let memref (r : TeeResult Setting) := r.map fun (s, mem, res) => (s, TaParam.memref mem, res)
  if p.isMeta then .ok (s, .zero, .error .badParameters)
  else
    match p.type with
    | .none => .ok (s, .zero, .ok ())
    | .value => .ok (s, .value p.w0 p.w1, .ok ())
    | .rmem =>
      if cfg.ffa then memref (setFmemParam cfg s p)
      else if cfg.dynShm then memref (setRmemParam cfg s p)
      else .ok (s, .zero, .error .badParameters)
    | .tmem =>
      if cfg.ffa then .ok (s, .zero, .error .badParameters) else memref (setTmemParam cfg s p)
    | .unknown => .ok (s, .zero, .error .badParameters)

abbrev Saved := ℕ × TaParam

/-- The loop of `copy_in_params`, without the parameters that it does not reach. -/
def copyInLoop (cfg : Config) : State → List Param → TeeResult (State × List Saved × TeeResult Unit)
  | s, [] => .ok (s, [], .ok ())
  | s, p :: ps => do
    let (s, tp, res) ← copyInParam cfg s p
    match res with
    | .error e => .ok (s, [(p.attr, tp)], .error e)
    | .ok () =>
      let (s, saved, res) ← copyInLoop cfg s ps
      .ok (s, (p.attr, tp) :: saved, res)

def teeNumParams : ℕ := 4

def copyInParams (cfg : Config) (s : State) (params : List Param) :
    TeeResult (State × List Saved × TeeResult Unit) :=
  if teeNumParams < params.length then .ok (s, [], .error .badParameters)
  else copyInLoop cfg s params

/-- The types that `cleanup_shm_refs` has cases for. -/
def ParamType.released (cfg : Config) : ParamType → Bool
  | .tmem => true
  | .rmem => cfg.dynShm
  | .none | .value | .unknown => false

/-- The switch of `cleanup_shm_refs`, on all bits of the attributes. -/
def releases (cfg : Config) (savedAttr : ℕ) : Bool := (ParamType.ofAttr savedAttr).released cfg

/-- `param->u[n].mem.mobj`, which a value has a number in. -/
def TaParam.mobj : TaParam → TeeResult (Option ℕ)
  | .zero => .ok none
  | .value _ _ => .error .panic
  | .memref mem => .ok mem.mobj

def cleanupShmRefs (cfg : Config) : State → List Saved → TeeResult State
  | s, [] => .ok s
  | s, (attr, tp) :: rest => do
    let s ← if releases cfg attr then tp.mobj >>= mobjPut s else .ok s
    cleanupShmRefs cfg s rest

/-! ## Messages -/

def TaParam.update (o : ℕ × ℕ) : TaParam → TaParam
  | .zero => .zero
  | .value _ _ => .value o.1 o.2
  | .memref mem => .memref { mem with size := o.1 }

/-- `copy_out_param`. Sizes of FF-A memory go where those of registered memory do. -/
def copyOutParam (p : Param) (tp : TaParam) : Param :=
  match tp with
  | .zero => p
  | .value a b => if p.masked ∈ [2, 3] then { p with w0 := a, w1 := b } else p
  | .memref mem => if p.masked ∈ [6, 7, 10, 11] then { p with w1 := mem.size } else p

/-- The session of `tee_ta_get_session`, what the call returns and what it leaves in the
parameters. -/
structure Env where
  session : Option ℕ
  res : TeeResult Unit
  outs : ℕ → ℕ × ℕ

structure Answer where
  ret : TeeResult Unit
  session : ℕ
  params : List Param

def Env.called (env : Env) (saved : List Saved) : List Saved :=
  saved.mapIdx fun i x => (x.1, x.2.update (env.outs i))

def copyOut (params : List Param) (saved : List Saved) : List Param :=
  params.zipWith (fun p x => copyOutParam p x.2) saved ++ params.drop saved.length

def metaAttr : ℕ := 2 ^ 8 + 1

/-- The logins of `get_open_session_meta`. -/
def loginKnown (login : ℕ) : Bool := login % 2 ^ 32 ∈ [0, 1, 2, 4, 5, 6, 0x80000000]

def getOpenSessionMeta (params : List Param) : TeeResult Unit :=
  match params with
  | p0 :: p1 :: _ =>
    if p0.attr = metaAttr ∧ p1.attr = metaAttr ∧ loginKnown p1.w2 then .ok ()
    else .error .badParameters
  | _ => .error .badParameters

def entryOpenSession (cfg : Config) (env : Env) (s : State) (params : List Param) :
    TeeResult (State × Answer) :=
  match getOpenSessionMeta params with
  | .error e => .ok (s, ⟨.error e, 0, params⟩)
  | .ok () => do
    let (s, saved, res) ← copyInParams cfg s (params.drop 2)
    match res with
    | .error e =>
      let s ← cleanupShmRefs cfg s saved
      .ok (s, ⟨.error e, 0, params⟩)
    | .ok () =>
      let saved := env.called saved
      let s ← cleanupShmRefs cfg s saved
      let id := match env.res with
        | .ok () => env.session.getD 0
        | .error _ => 0
      .ok (s, ⟨env.res, id, params.take 2 ++ copyOut (params.drop 2) saved⟩)

def entryInvokeCommand (cfg : Config) (env : Env) (s : State) (session : ℕ) (params : List Param) :
    TeeResult (State × Answer) := do
  let (s, saved, res) ← copyInParams cfg s params
  match res, env.session with
  | .error e, _ =>
    let s ← cleanupShmRefs cfg s saved
    .ok (s, ⟨.error e, session, params⟩)
  | .ok (), none =>
    let s ← cleanupShmRefs cfg s saved
    .ok (s, ⟨.error .badParameters, session, params⟩)
  | .ok (), some _ =>
    let saved := env.called saved
    let s ← cleanupShmRefs cfg s saved
    .ok (s, ⟨env.res, session, copyOut params saved⟩)

inductive Message where
  | openSession (params : List Param)
  | invokeCommand (session : ℕ) (params : List Param)

def entry (cfg : Config) (env : Env) (s : State) : Message → TeeResult (State × Answer)
  | .openSession params => entryOpenSession cfg env s params
  | .invokeCommand session params => entryInvokeCommand cfg env s session params

end Optee.EntryStd
