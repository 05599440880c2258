import Mathlib.Algebra.Group.Nat.Defs

/-!
# Runs of a step function

A run applies a step function to one action after another and stops at the first that fails. A
guard is a condition on the state before a step and its action; a property that each guarded step
keeps holds after every guarded run (`exec_invariant`).
-/

namespace Optee

variable {σ α ε : Type}

/-- The state after a list of actions, each of which succeeds. -/
def exec (step : σ → α → Except ε σ) : σ → List α → Except ε σ
  | s, [] => .ok s
  | s, a :: as =>
    match step s a with
    | .ok s' => exec step s' as
    | .error e => .error e

/-- Every action of a run meets the guard in the state it is applied to. -/
def Guarded (guard : σ → α → Prop) (step : σ → α → Except ε σ) : σ → List α → Prop
  | _, [] => True
  | s, a :: as => guard s a ∧
    match step s a with
    | .ok s' => Guarded guard step s' as
    | .error _ => True

instance Guarded.decidable (guard : σ → α → Prop) [∀ s a, Decidable (guard s a)]
    (step : σ → α → Except ε σ) : ∀ s as, Decidable (Guarded guard step s as)
  | _, [] => isTrue trivial
  | s, a :: as =>
    have : Decidable (match step s a with
        | .ok s' => Guarded guard step s' as
        | .error _ => True) :=
      match step s a with
      | .ok s' => Guarded.decidable guard step s' as
      | .error _ => isTrue trivial
    inferInstanceAs (Decidable (_ ∧ _))

/-- A run from a start that may fail. -/
def execFrom (step : σ → α → Except ε σ) (start : Except ε σ) (as : List α) : Except ε σ :=
  match start with
  | .ok s => exec step s as
  | .error e => .error e

/-- Every action of a run from such a start meets the guard. -/
def GuardedFrom (guard : σ → α → Prop) (step : σ → α → Except ε σ) (start : Except ε σ)
    (as : List α) : Prop :=
  match start with
  | .ok s => Guarded guard step s as
  | .error _ => True

instance GuardedFrom.decidable (guard : σ → α → Prop) [∀ s a, Decidable (guard s a)]
    (step : σ → α → Except ε σ) (start : Except ε σ) (as : List α) :
    Decidable (GuardedFrom guard step start as) :=
  match start with
  | .ok s => Guarded.decidable guard step s as
  | .error _ => isTrue trivial

variable {g : σ → α → Prop} {step : σ → α → Except ε σ}

variable {s s' : σ} {r x : Except ε σ} {P : σ → Prop} {Q : ε → Prop}

theorem exec_cons {a : α} {as : List α} (h : exec step s (a :: as) = .ok s') :
    ∃ s₁, step s a = .ok s₁ ∧ exec step s₁ as = .ok s' := by
  simp only [exec] at h
  split at h
  · exact ⟨_, ‹_›, h⟩
  · cases h

theorem exec_append : ∀ {as bs : List α} {s : σ}, exec step s (as ++ bs) = .ok s' →
    ∃ s₁, exec step s as = .ok s₁ ∧ exec step s₁ bs = .ok s'
  | [], bs, s, h => ⟨s, rfl, h⟩
  | a :: as, bs, s, h => by
    obtain ⟨s₁, hs, h⟩ := exec_cons h
    obtain ⟨s₂, h1, h2⟩ := exec_append h
    exact ⟨s₂, by rw [exec, hs]; exact h1, h2⟩

theorem exec_append_of_ok {s₁ : σ} {bs : List α} :
    ∀ {as : List α} {s : σ}, exec step s as = .ok s₁ →
    exec step s (as ++ bs) = exec step s₁ bs
  | [], s, h => by
    cases h
    rfl
  | a :: as, s, h => by
    obtain ⟨s₂, hs, h⟩ := exec_cons h
    rw [List.cons_append, exec, hs]
    exact exec_append_of_ok h

theorem Guarded.tail {s₁ : σ} {a : α} {as : List α} (h : Guarded g step s (a :: as))
    (hs : step s a = .ok s₁) : Guarded g step s₁ as := by
  have := h.2
  rwa [hs] at this

theorem Guarded.imp {g' : σ → α → Prop} (hgg : ∀ s a, g s a → g' s a) :
    ∀ {as : List α} {s : σ}, Guarded g step s as → Guarded g' step s as
  | [], _, _ => trivial
  | a :: as, s, h => by
    refine ⟨hgg s a h.1, ?_⟩
    split
    · exact Guarded.imp hgg (h.tail ‹_›)
    · trivial

theorem Guarded.append {bs : List α} : ∀ {as : List α} {s : σ}, Guarded g step s (as ++ bs) →
    exec step s as = .ok s' → Guarded g step s as ∧ Guarded g step s' bs
  | [], s, h, he => by
    cases he
    exact ⟨trivial, h⟩
  | a :: as, s, h, he => by
    obtain ⟨s₁, hs, he⟩ := exec_cons he
    obtain ⟨h1, h2⟩ := Guarded.append (h.tail hs) he
    exact ⟨⟨h.1, by rwa [hs]⟩, h2⟩

theorem guarded_of_forall {p : α → Prop} :
    ∀ {as : List α} {s : σ}, (∀ a ∈ as, p a) → Guarded (fun _ a => p a) step s as
  | [], _, _ => trivial
  | a :: as, s, h => by
    refine ⟨h a List.mem_cons_self, ?_⟩
    split
    · exact guarded_of_forall fun a' ha' => h a' (List.mem_cons_of_mem a ha')
    · trivial

theorem exists_ok_of_decide [DecidablePred P]
    (h : (match r with
      | .ok s => decide (P s)
      | .error _ => false) = true) : ∃ s, r = .ok s ∧ P s := by
  cases r with
  | error e => cases h
  | ok s => exact ⟨s, rfl, of_decide_eq_true h⟩

theorem eq_error_of_decide [DecidableEq ε] {e : ε}
    (h : (match r with
      | .ok _ => false
      | .error e' => decide (e' = e)) = true) : r = .error e := by
  cases r with
  | error e' => rw [of_decide_eq_true h]
  | ok s => cases h

/-- A computation succeeds with a result that passes a test. -/
def okAnd (r : Except ε σ) (p : σ → Bool) : Bool :=
  match r with
  | .ok s => p s
  | .error _ => false

theorem exists_of_okAnd {p : σ → Bool} (h : okAnd r p = true) : ∃ s, r = .ok s ∧ p s = true := by
  cases r with
  | error e => cases h
  | ok s => exact ⟨s, rfl, h⟩

theorem exec_invariant
    (hstep : ∀ s a s', P s → g s a → step s a = .ok s' → P s') :
    ∀ {as : List α} {s s' : σ}, P s → Guarded g step s as → exec step s as = .ok s' → P s'
  | [], s, s', hp, _, he => by
    cases he
    exact hp
  | a :: as, s, s', hp, hg, he => by
    obtain ⟨s₁, hs, he⟩ := exec_cons he
    exact exec_invariant hstep (hstep s a s₁ hp hg.1 hs) (hg.tail hs) he

theorem exec_history {P : List α → σ → Prop} {s₀ : σ}
    (hstep : ∀ as s a s', P as s → exec step s₀ as = .ok s → g s a → step s a = .ok s' →
      P (as ++ [a]) s') :
    ∀ {as : List α} (past : List α) {s s' : σ}, P past s → exec step s₀ past = .ok s →
      Guarded g step s as →
      exec step s as = .ok s' → P (past ++ as) s'
  | [], past, s, s', h, _, _, hrun => by
    cases hrun
    rwa [List.append_nil]
  | a :: as, past, s, s', h, hpast, hg, hrun => by
    obtain ⟨s₁, hs, hrun⟩ := exec_cons hrun
    have hpast₁ : exec step s₀ (past ++ [a]) = .ok s₁ := by
      rw [exec_append_of_ok hpast, exec, hs]
      rfl
    rw [← List.singleton_append, ← List.append_assoc]
    exact exec_history hstep _ (hstep past s a s₁ h hpast hg.1 hs) hpast₁ (hg.tail hs) hrun

/-- A computation ends in a state with a property, or fails in an allowed way. -/
def EndsIn (P : σ → Prop) (Q : ε → Prop) : Except ε σ → Prop
  | .ok s => P s
  | .error e => Q e

theorem EndsIn.of_ok (h : EndsIn P Q x) (hx : x = .ok s) : P s := by
  rw [hx] at h
  exact h

theorem EndsIn.imp {P' : σ → Prop} (h : EndsIn P Q x) (hP : ∀ s, P s → P' s) : EndsIn P' Q x := by
  cases x with
  | ok s => exact hP s h
  | error e => exact h

theorem EndsIn.bind {τ : Type} {P' : τ → Prop} {f : σ → Except ε τ} (hx : EndsIn P Q x)
    (hf : ∀ s, P s → EndsIn P' Q (f s)) : EndsIn P' Q (x >>= f) := by
  cases x with
  | ok s => exact hf s hx
  | error e => exact hx

theorem exec_endsIn
    (hstep : ∀ s a, P s → g s a → EndsIn P Q (step s a)) :
    ∀ {as : List α} {s : σ}, P s → Guarded g step s as → EndsIn P Q (exec step s as)
  | [], _, hp, _ => hp
  | a :: as, s, hp, hg => by
    have hs := hstep s a hp hg.1
    rw [exec]
    cases he : step s a with
    | ok s₁ =>
      rw [he] at hs
      exact exec_endsIn hstep hs (hg.tail he)
    | error e =>
      rw [he] at hs
      exact hs

theorem exists_exec_of_guarded
    (hstep : ∀ s a, P s → g s a → ∃ s', step s a = .ok s' ∧ P s') :
    ∀ {as : List α} {s : σ}, P s → Guarded g step s as → ∃ s', exec step s as = .ok s' ∧ P s'
  | [], s, hp, _ => ⟨s, rfl, hp⟩
  | a :: as, s, hp, hg => by
    obtain ⟨s₁, hs, hp₁⟩ := hstep s a hp hg.1
    obtain ⟨s', he, hp'⟩ := exists_exec_of_guarded hstep hp₁ (hg.tail hs)
    exact ⟨s', by rw [exec, hs]; exact he, hp'⟩

theorem exists_exec (hstep : ∀ s a, P s → ∃ s', step s a = .ok s' ∧ P s') (as : List α) (hp : P s)
    : ∃ s', exec step s as = .ok s' ∧ P s' :=
  exists_exec_of_guarded (fun s a hs (_ : True) => hstep s a hs) hp
    (guarded_of_forall fun _ _ => trivial)

end Optee
