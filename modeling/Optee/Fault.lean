import Optee.Lib.Bytes
import Optee.Lib.Prog
import Optee.Result

/-!
# Failing steps

A call to the normal world and an allocation may fail, and the machine may lose power before any of
them. Which of these happens is decided by an oracle that each such step consults, and that also
holds the random numbers drawn.
-/

namespace Optee

inductive Fault where
  | fail (e : TeeError) (h : e ≠ .itemNotFound)
  | cut

/-- A power cut, a failed `assert()`, or a null pointer. -/
inductive Stop where
  | cut
  | assert
  | nullPointer
  deriving DecidableEq

structure Oracle where
  faults : List (Option Fault)
  rnd : List (ByteVec 16)

abbrev OracleM := Prog Oracle TeeError Stop

def tick : OracleM Unit := fun o =>
  match o.faults with
  | [] | none :: _ => (.ok (), { o with faults := o.faults.tail })
  | some (.fail e _) :: _ => (.error e, { o with faults := o.faults.tail })
  | some .cut :: _ => (.halt .cut, { o with faults := o.faults.tail })

def tickAlloc : OracleM Unit := do
  match ← Prog.attempt tick with
  | .ok () => pure ()
  | .error _ => Prog.throw .outOfMemory

def draw : OracleM (ByteVec 16) := fun o =>
  (.ok (o.rnd.headD (ByteVec.zero 16)), { o with rnd := o.rnd.tail })

/-- `assert()` -/
def Prog.assert {σ : Type} (b : Bool) : Prog σ TeeError Stop Unit :=
  if b then pure () else Prog.halt .assert

def Prog.ofTeeResult {σ α : Type} : TeeResult α → Prog σ TeeError Stop α
  | .ok a => pure a
  | .error .panic => Prog.halt .assert
  | .error e => Prog.throw e

end Optee
