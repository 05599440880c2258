import Mathlib.Algebra.Group.Nat.Defs

/-!
# Result codes

The error codes of `TEE_Result` that the modelled functions return. Success is `Except.ok`. A failed
`assert()` or a call to `panic()` stops the core, which is the code `panic`.
-/

namespace Optee

/-- The `TEE_ERROR_*` codes, and `panic` for a core that stopped. -/
inductive TeeError where
  | generic
  | accessDenied
  | accessConflict
  | badFormat
  | badParameters
  | badState
  | itemNotFound
  | noData
  | outOfMemory
  | communication
  | security
  | corruptObject
  | storageNotAvailable
  | storageNoSpace
  | macInvalid
  | shortBuffer
  | notImplemented
  | notSupported
  | busy
  | overflow
  | targetDead
  | panic
  deriving DecidableEq, Repr

abbrev TeeResult := Except TeeError

/-- `assert()` of a core built without `NDEBUG`. -/
def assert (b : Bool) : TeeResult Unit := if b then .ok () else .error .panic

@[simp] theorem assert_eq_ok {b : Bool} {u : Unit} : assert b = .ok u ↔ b = true := by
  cases b <;> simp [assert]

/-- Both of two fallible steps have returned. -/
theorem bind_eq_ok {ε α β : Type} {x : Except ε α} {f : α → Except ε β} {b : β} :
    (x >>= f) = .ok b ↔ ∃ a, x = .ok a ∧ f a = .ok b := by
  cases x with
  | error e => exact ⟨nofun, fun ⟨_, h, _⟩ => nomatch h⟩
  | ok a => exact ⟨fun h => ⟨a, rfl, h⟩, fun ⟨a', h, hf⟩ => by cases h; exact hf⟩

end Optee
