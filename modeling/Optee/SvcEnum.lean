import Optee.Fault
import Optee.Lib.Run

/-!
# Enumerators of persistent objects

The system calls on an enumerator of `core/tee/tee_svc_storage.c`. Which file system a storage id
stands for, and whether it opens and reads the directory, is decided by the caller of the model; the
calls made are recorded.
-/

namespace Optee.SvcEnum

variable {F : Type}

/-- `struct tee_storage_enum`, where a directory is known by its number. -/
structure TeeStorageEnum (F : Type) where
  dir : Option ℕ
  fops : Option F
  deriving DecidableEq

/-- A call of a file system, with what `opendir` returned. -/
inductive DirCall (F : Type) where
  | opendir (fops : F) (dir : Option ℕ)
  | readdir (fops : F) (dir : Option ℕ)
  | closedir (fops : F) (dir : Option ℕ)
  deriving DecidableEq

/-- The enumerator, and the calls made, the last one first. -/
structure State (F : Type) where
  enum : Option (TeeStorageEnum F)
  calls : List (DirCall F)
  nextDir : ℕ

abbrev EnumM (F : Type) := Prog (State F) TeeError Stop

def record (call : DirCall F) : EnumM F Unit :=
  Prog.modify fun s => { s with calls := call :: s.calls }

def setEnum (e : Option (TeeStorageEnum F)) : EnumM F Unit :=
  Prog.modify fun s => { s with enum := e }

/-- `fops->opendir`, which may fail. -/
def opendir (fops : F) (res : TeeResult Unit) (dir : Option ℕ) : EnumM F (Option ℕ) := fun s =>
  match res with
  | .ok () =>
    (.ok (some s.nextDir),
      { s with calls := .opendir fops (some s.nextDir) :: s.calls, nextDir := s.nextDir + 1 })
  | .error _ => (.ok dir, { s with calls := .opendir fops none :: s.calls })

/-- `e->fops->closedir(e->dir)` -/
def closedir (e : TeeStorageEnum F) : EnumM F Unit :=
  match e.fops with
  | none => Prog.halt .nullPointer
  | some fops => record (.closedir fops e.dir)

/-! ## System calls -/

def teeSvcStorageGetEnum : EnumM F (TeeStorageEnum F) := do
  let s ← Prog.get
  match s.enum with
  | none => Prog.throw .badParameters
  | some e => pure e

/-- What `syscall_storage_alloc_enum` leaves. -/
def State.alloc : State F := ⟨some ⟨none, none⟩, [], 0⟩

def teeSvcCloseEnum (e : TeeStorageEnum F) : EnumM F Unit := do
  Prog.when e.fops.isSome (closedir e)
  setEnum none

def syscallStorageFreeEnum : EnumM F Unit := do
  let e ← teeSvcStorageGetEnum
  teeSvcCloseEnum e

def syscallStorageResetEnum : EnumM F Unit := do
  let e ← teeSvcStorageGetEnum
  if e.fops.isSome then
    closedir e
    setEnum (some ⟨none, none⟩)
  else
    Prog.assert e.dir.isNone

/-- `syscall_storage_start_enum` for the file system of a storage id. The code of `opendir` is
`res`. -/
def syscallStorageStartEnum (fops : Option F) (res : TeeResult Unit) : EnumM F Unit := do
  let e ← teeSvcStorageGetEnum
  Prog.when e.dir.isSome (closedir e)
  setEnum (some { e with dir := none })
  match fops with
  | none => Prog.throw .itemNotFound
  | some fops =>
    let dir ← opendir fops res none
    setEnum (some ⟨dir, some fops⟩)
    Prog.ofExcept res

/-- `syscall_storage_next_enum`, with the codes of the checks of the buffers and of everything from
`readdir` on. -/
def syscallStorageNextEnum (access res : TeeResult Unit) : EnumM F Unit := do
  let e ← teeSvcStorageGetEnum
  Prog.ofExcept access
  match e.fops with
  | none => Prog.throw .itemNotFound
  | some fops =>
    record (.readdir fops e.dir)
    Prog.ofExcept res

/-! ## Runs -/

inductive EnumCall (F : Type) where
  | start (fops : Option F) (res : TeeResult Unit)
  | reset
  | next (access res : TeeResult Unit)
  | free

def EnumCall.run : EnumCall F → EnumM F Unit
  | .start fops res => syscallStorageStartEnum fops res
  | .reset => syscallStorageResetEnum
  | .next access res => syscallStorageNextEnum access res
  | .free => syscallStorageFreeEnum

def State.step (s : State F) (call : EnumCall F) : Except Stop (State F) :=
  match call.run s with
  | (.halt h, _) => .error h
  | (_, s') => .ok s'

end Optee.SvcEnum
