import Mathlib.Tactic.Common

/-!
# A machine that follows another

Calls are made on a machine and on the one that specifies it. The first follows the second where all
answers are the same. If calls that meet a guard keep the states related and no other call keeps the
view of them, the runs that follow are those that heed the guard (`follows_iff_heeds`).
-/

namespace Optee

variable {σ τ α β ε : Type} (step : σ → α → Except ε (σ × β)) (spec : τ → α → Except ε (τ × β))
  (view : σ → τ → Prop)

/-- Two outcomes of a call: the same answer with states that are related, or the same error. -/
def Matches (P : σ → τ → Prop) : Except ε (σ × β) → Except ε (τ × β) → Prop
  | .ok (s, b), .ok (t, b') => b = b' ∧ P s t
  | .error e, .error e' => e = e'
  | _, _ => False

/-- In a run of calls the answers are those of the machine `spec`, and every state is seen as its
state. -/
def Follows : List α → σ → τ → Prop
  | [], s, t => view s t
  | a :: as, s, t => view s t ∧ Matches (Follows as) (step s a) (spec t a)

/-- Every call meets the guard in the state it is made in. -/
def Heeds (guard : σ → α → Prop) : List α → σ → Prop
  | [], _ => True
  | a :: as, s => guard s a ∧ ∀ s' b, step s a = .ok (s', b) → Heeds guard as s'

variable {step spec view} {R : σ → τ → Prop} {guard : σ → α → Prop}

theorem Follows.view_of : ∀ {as : List α} {s : σ} {t : τ}, Follows step spec view as s t → view s t
  | [], _, _, h => h
  | _ :: _, _, _, h => h.1

theorem Matches.imp {P Q : σ → τ → Prop} (hPQ : ∀ s t, P s t → Q s t) {x : Except ε (σ × β)}
    {y : Except ε (τ × β)} (h : Matches P x y) : Matches Q x y := by
  cases x with
  | error e =>
    cases y with
    | error e' => exact h
    | ok y => exact h.elim
  | ok x =>
    cases y with
    | error e' => exact h.elim
    | ok y => exact ⟨h.1, hPQ _ _ h.2⟩

theorem matches_bind {σ' τ' : Type} {P : σ' → τ' → Prop} {f : σ → σ'} {g : τ → τ'}
    {x : Except ε (σ × β)} {y : Except ε (τ × β)} :
    Matches P (x >>= fun p => .ok (f p.1, p.2)) (y >>= fun p => .ok (g p.1, p.2))
      ↔ Matches (fun s t => P (f s) (g t)) x y := by
  cases x <;> cases y <;> rfl

/-- Calls that meet the guard keep the states related, and one that does not is seen at once. -/
theorem follows_iff_heeds (hview : ∀ s t, R s t → view s t)
    (hstep : ∀ s t a, R s t → guard s a → Matches R (step s a) (spec t a))
    (hbreak : ∀ s t a, R s t → ¬guard s a → ¬Matches view (step s a) (spec t a)) :
    ∀ {as : List α} {s : σ} {t : τ}, R s t → (Follows step spec view as s t ↔ Heeds step guard as s)
  | [], s, t, h => by simp [Follows, Heeds, hview s t h]
  | a :: as, s, t, h => by
    rw [Follows, Heeds, and_iff_right (hview s t h)]
    by_cases hg : guard s a
    swap
    · exact ⟨fun hm => absurd (hm.imp fun _ _ => Follows.view_of) (hbreak s t a h hg),
        fun hh => absurd hh.1 hg⟩
    rw [and_iff_right hg]
    have hm := hstep s t a h hg
    cases hs : step s a with
    | error e =>
      cases ht : spec t a with
      | error e' => simpa [hs, ht, Matches] using hm
      | ok y => simp [hs, ht, Matches] at hm
    | ok x =>
      cases ht : spec t a with
      | error e' => simp [hs, ht, Matches] at hm
      | ok y =>
        rw [hs, ht] at hm
        rw [Matches, and_iff_right hm.1, follows_iff_heeds hview hstep hbreak hm.2]
        exact ⟨fun hh s' b hb => by cases hb; exact hh, fun hh => hh _ _ rfl⟩

end Optee
