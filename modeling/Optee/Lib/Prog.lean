import Mathlib.Init

/-!
# Programs with state, error codes and stops

A program ends with a value, an error code that the caller gets to see and may handle (`attempt`),
or a stop, after which nothing runs. A `Triple` says what holds after each of the three, and `zoom`
runs a program on a part of the state.
-/

namespace Optee

/-- How a program ends. -/
inductive Outcome (ε η α : Type) where
  | ok (a : α)
  | error (e : ε)
  | halt (h : η)
  deriving DecidableEq

def Prog (σ ε η α : Type) := σ → Outcome ε η α × σ

namespace Prog

variable {σ τ ε η θ α β : Type}

protected def bind (m : Prog σ ε η α) (f : α → Prog σ ε η β) : Prog σ ε η β := fun s =>
  match m s with
  | (.ok a, s) => f a s
  | (.error e, s) => (.error e, s)
  | (.halt h, s) => (.halt h, s)

instance : Monad (Prog σ ε η) where
  pure a := fun s => (.ok a, s)
  bind := Prog.bind

def get : Prog σ ε η σ := fun s => (.ok s, s)

def modify (f : σ → σ) : Prog σ ε η Unit := fun s => (.ok (), f s)

def throw (e : ε) : Prog σ ε η α := fun s => (.error e, s)

def halt (h : η) : Prog σ ε η α := fun s => (.halt h, s)

/-- Runs a program and hands its error code on as a value. -/
def attempt (m : Prog σ ε η α) : Prog σ ε η (Except ε α) := fun s =>
  match m s with
  | (.ok a, s) => (.ok (.ok a), s)
  | (.error e, s) => (.ok (.error e), s)
  | (.halt h, s) => (.halt h, s)

def ofExcept : Except ε α → Prog σ ε η α
  | .ok a => pure a
  | .error e => throw e

/-- Runs a program under a condition. -/
def when (b : Bool) (m : Prog σ ε η Unit) : Prog σ ε η Unit := if b then m else pure ()

/-- Runs a program on a part of the state, with its stops seen as stops of the whole. -/
def zoom (view : σ → τ) (put : τ → σ → σ) (stop : η → θ) (m : Prog τ ε η α) : Prog σ ε θ α :=
  fun s =>
    match m (view s) with
    | (.ok a, t) => (.ok a, put t s)
    | (.error e, t) => (.error e, put t s)
    | (.halt h, t) => (.halt (stop h), put t s)

/-! ## Runs that return -/

variable {m : Prog σ ε η α} {f : α → Prog σ ε η β} {s : σ} {a : α}

theorem bind_ok {s' : σ} (h : m s = (.ok a, s')) : (m >>= f) s = f a s' := by
  show Prog.bind m f s = f a s'
  rw [Prog.bind, h]

theorem attempt_ok {s' : σ} (h : m s = (.ok a, s')) : attempt m s = (.ok (.ok a), s') := by
  rw [attempt, h]

theorem zoom_ok {view : σ → τ} {put : τ → σ → σ} {stop : η → θ} {m : Prog τ ε η α} {t : τ}
    (h : m (view s) = (.ok a, t)) : zoom view put stop m s = (.ok a, put t s) := by
  rw [zoom, h]

theorem exists_ok_of_decide {P : α → Prop} [DecidablePred P]
    (h : (match (m s).1 with
      | .ok a => decide (P a)
      | _ => false) = true) : ∃ a s', m s = (.ok a, s') ∧ P a := by
  generalize hr : m s = r at h
  rcases r with ⟨a | e | x, s'⟩
  · exact ⟨a, s', rfl, of_decide_eq_true h⟩
  · cases h
  · cases h

/-! ## Weakest preconditions -/

/-- Run from `s`, a program returns a value with `Q`, an error with `E` or stops with `H`. -/
def wp (m : Prog σ ε η α) (Q : α → σ → Prop) (E : ε → σ → Prop) (H : η → σ → Prop) (s : σ) :
    Prop :=
  match m s with
  | (.ok a, s') => Q a s'
  | (.error e, s') => E e s'
  | (.halt h, s') => H h s'

section Rules

variable {Q : α → σ → Prop} {E : ε → σ → Prop} {H : η → σ → Prop} {s : σ}

@[simp] theorem wp_pure : wp (pure a : Prog σ ε η α) Q E H s ↔ Q a s := Iff.rfl

@[simp] theorem wp_get {Q : σ → σ → Prop} : wp (get : Prog σ ε η σ) Q E H s ↔ Q s s := Iff.rfl

@[simp] theorem wp_modify {f : σ → σ} {Q : Unit → σ → Prop} :
    wp (modify f : Prog σ ε η Unit) Q E H s ↔ Q () (f s) := Iff.rfl

@[simp] theorem wp_when {b : Bool} {m : Prog σ ε η Unit} {Q : Unit → σ → Prop} :
    wp (when b m) Q E H s ↔ if b then wp m Q E H s else Q () s := by
  cases b <;> exact Iff.rfl

@[simp] theorem wp_bind {R : β → σ → Prop} :
    wp (m >>= f) R E H s ↔ wp m (fun a s => wp (f a) R E H s) E H s := by
  show wp (Prog.bind m f) R E H s ↔ _
  unfold wp Prog.bind
  rcases m s with ⟨r, s'⟩
  rcases r with a | e | h <;> rfl

@[simp] theorem wp_attempt {R : Except ε α → σ → Prop} :
    wp (attempt m) R E H s ↔ wp m (fun a => R (.ok a)) (fun e => R (.error e)) H s := by
  unfold wp attempt
  rcases m s with ⟨r, s'⟩
  rcases r with a | e | h <;> rfl

@[simp] theorem wp_zoom {view : σ → τ} {put : τ → σ → σ} {stop : θ → η} {m : Prog τ ε θ α} :
    wp (zoom view put stop m) Q E H s
      ↔ wp m (fun a t => Q a (put t s)) (fun e t => E e (put t s))
        (fun h t => H (stop h) (put t s)) (view s) := by
  unfold wp zoom
  rcases m (view s) with ⟨r, t⟩
  rcases r with a | e | h <;> rfl

theorem wp_ite {c : Prop} [Decidable c] {m' : Prog σ ε η α} (hm : c → wp m Q E H s)
    (hm' : ¬c → wp m' Q E H s) : wp (if c then m else m') Q E H s := by
  split
  case isTrue h => exact hm h
  case isFalse h => exact hm' h

theorem wp_true : wp m (fun _ _ => True) (fun _ _ => True) (fun _ _ => True) s := by
  unfold wp
  split <;> trivial

theorem wp_mono {Q' : α → σ → Prop} {E' : ε → σ → Prop} {H' : η → σ → Prop} (h : wp m Q E H s)
    (hQ : ∀ a s, Q a s → Q' a s) (hE : ∀ e s, E e s → E' e s)
    (hH : ∀ x s, H x s → H' x s) : wp m Q' E' H' s := by
  unfold wp at h ⊢
  generalize m s = r at h ⊢
  rcases r with ⟨a | e | x, s'⟩
  · exact hQ a s' h
  · exact hE e s' h
  · exact hH x s' h

theorem state_of_wp {P : σ → Prop}
    (h : wp m (fun _ => P) (fun _ => P) (fun _ => P) s) : P (m s).2 := by
  unfold wp at h
  generalize m s = r at h ⊢
  rcases r with ⟨a | e | x, s'⟩ <;> exact h

end Rules

/-! ## Invariants -/

section Invariants

/-- Run from a state with `I`, a program ends in one, however it ends. -/
def Preserves (I : σ → Prop) (m : Prog σ ε η α) : Prop :=
  ∀ s, I s → wp m (fun _ => I) (fun _ => I) (fun _ => I) s

variable {I : σ → Prop}

theorem preserves_pure (a : α) : Preserves I (pure a : Prog σ ε η α) := fun _ h => h

theorem preserves_bind (hm : Preserves I m) (hf : ∀ a, Preserves I (f a)) :
    Preserves I (m >>= f) := fun s h =>
  wp_bind.2 (wp_mono (hm s h) (fun a s₁ h₁ => hf a s₁ h₁) (fun _ _ h => h) fun _ _ h => h)

theorem preserves_attempt (hm : Preserves I m) : Preserves I (attempt m) :=
  fun s h => wp_attempt.2 (hm s h)

end Invariants

end Prog

end Optee
