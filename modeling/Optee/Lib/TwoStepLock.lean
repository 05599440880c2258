import Mathlib.Data.Fintype.Basic
import Mathlib.Logic.Function.Basic
import Optee.Lib.Run

/-!
# A lock that is tested and set in two steps

Threads wait until a flag is clear and then set it, with a step between the two. Where no thread
finds the flag clear while another is about to set it, their operations on shared variables have the
results they have one after another (`Locked.Inv`).
-/

namespace Optee

/-- A program that loads and stores shared variables. -/
inductive Access (σ α : Type) where
  | done (a : α)
  | load (k : σ → Access σ α)
  | store (f : σ → σ) (k : Access σ α)

namespace Access

variable {σ α β : Type}

/-- The value of a variable is loaded. -/
def get (f : σ → β) (k : β → Access σ α) : Access σ α := .load fun s => k (f s)

/-- One access. -/
def step : Access σ α → σ → Access σ α × σ
  | .done a, s => (.done a, s)
  | .load k, s => (k s, s)
  | .store f k, s => (k, f s)

/-- All accesses, with nothing in between. -/
def run : Access σ α → σ → α × σ
  | .done a, s => (a, s)
  | .load k, s => (k s).run s
  | .store f k, s => k.run (f s)

theorem run_step (p : Access σ α) (s : σ) : (p.step s).1.run (p.step s).2 = p.run s := by
  cases p <;> rfl

@[simp] theorem run_done (a : α) (s : σ) : (done a : Access σ α).run s = (a, s) := rfl

@[simp] theorem run_get (f : σ → β) (k : β → Access σ α) (s : σ) :
    (get f k).run s = (k (f s)).run s := rfl

@[simp] theorem run_store (f : σ → σ) (k : Access σ α) (s : σ) : (store f k).run s = k.run (f s) :=
  rfl

theorem run_ite {c : Prop} [Decidable c] (p q : Access σ α) (s : σ) :
    (if c then p else q).run s = if c then p.run s else q.run s := by
  split <;> rfl

end Access

/-! ## One operation after another -/

section Serial

variable {σ σ' ω α : Type}

/-- Operations one after another, each begun where it may be, with their results, the last one
first. -/
inductive Serial (op : ω → σ → α × σ) (ok : σ → ω → Prop) (s₀ : σ) : List (ω × α) → σ → Prop where
  | nil : Serial op ok s₀ [] s₀
  | cons {log : List (ω × α)} {s : σ} {o : ω} (h : Serial op ok s₀ log s) (hok : ok s o) :
    Serial op ok s₀ ((o, (op o s).1) :: log) (op o s).2

theorem Serial.last {op : ω → σ → α × σ} {ok : σ → ω → Prop} {s₀ s : σ} {log : List (ω × α)} {o : ω}
    {a : α} (h : Serial op ok s₀ ((o, a) :: log) s) :
    ∃ s₁, Serial op ok s₀ log s₁ ∧ s = (op o s₁).2 := by
  cases h with
  | cons h _ => exact ⟨_, h, rfl⟩

theorem Serial.simulates {op : ω → σ → α × σ} {op' : ω → σ' → α × σ'} {ok : σ → ω → Prop}
    {ok' : σ' → ω → Prop} {R : σ → σ' → Prop} {s₀ s : σ} {a₀ : σ'} {log : List (ω × α)}
    (h₀ : R s₀ a₀)
    (hstep : ∀ s a o, R s a → ok s o → ok' a o ∧ (op' o a).1 = (op o s).1
      ∧ R (op o s).2 (op' o a).2)
    (h : Serial op ok s₀ log s) : ∃ a, Serial op' ok' a₀ log a ∧ R s a := by
  induction h with
  | nil => exact ⟨a₀, .nil, h₀⟩
  | cons h hok ih =>
    obtain ⟨a, ha, hR⟩ := ih
    obtain ⟨hok', hres, hR'⟩ := hstep _ _ _ hR hok
    exact ⟨_, hres ▸ ha.cons hok', hR'⟩

end Serial

/-! ## Threads with a lock -/

/-- Where a thread is: it waits for the flag to be clear, has found it clear, or has set it. -/
inductive LockPc (σ α ω : Type) where
  | idle
  | waiting (o : ω)
  | taking (o : ω)
  | holding (o : ω) (p : Access σ α)

def LockPc.isTaking {σ α ω : Type} : LockPc σ α ω → Bool
  | .taking _ => true
  | _ => false

def LockPc.isInside {σ α ω : Type} : LockPc σ α ω → Bool
  | .taking _ | .holding _ _ => true
  | _ => false

/-- The shared variables, the flag, and the operations that have ended, the last one first. -/
structure Locked (n : ℕ) (σ α ω : Type) where
  shared : σ
  lock : Bool
  pc : Fin n → LockPc σ α ω
  log : List (ω × α)

inductive LockEvent (n : ℕ) (ω : Type) where
  | call (t : Fin n) (o : ω)
  | run (t : Fin n)

namespace Locked

variable {n : ℕ} {σ α ω : Type} (body : ω → Access σ α) (ok : σ → ω → Prop)

def init (n : ℕ) (s₀ : σ) : Locked n σ α ω := ⟨s₀, false, fun _ => .idle, []⟩

def goto (s : Locked n σ α ω) (t : Fin n) (pc : LockPc σ α ω) : Locked n σ α ω :=
  { s with pc := Function.update s.pc t pc }

/-- A step of a thread that has set the flag. The last one clears it. -/
def hold (s : Locked n σ α ω) (t : Fin n) (o : ω) : Access σ α → Locked n σ α ω
  | .done a => { s.goto t .idle with lock := false, log := (o, a) :: s.log }
  | p => { s.goto t (.holding o (p.step s.shared).1) with shared := (p.step s.shared).2 }

def step (s : Locked n σ α ω) : LockEvent n ω → Except Unit (Locked n σ α ω)
  | .call t o =>
    match s.pc t with
    | .idle => .ok (s.goto t (.waiting o))
    | _ => .error ()
  | .run t =>
    match s.pc t with
    | .idle => .error ()
    | .waiting o => .ok (if s.lock then s else s.goto t (.taking o))
    | .taking o => .ok { s.goto t (.holding o (body o)) with lock := true }
    | .holding o p => .ok (s.hold t o p)

/-- A thread does not find the flag clear while another is about to set it, and operations begin
where they may. -/
def MayGo (s : Locked n σ α ω) : LockPc σ α ω → Prop
  | .waiting _ => s.lock = true ∨ ∀ u, (s.pc u).isTaking = false
  | .taking o => ok s.shared o
  | _ => True

def Sound (s : Locked n σ α ω) : LockEvent n ω → Prop
  | .call _ _ => True
  | .run t => s.MayGo ok (s.pc t)

instance MayGo.decidable [∀ s o, Decidable (ok s o)] (s : Locked n σ α ω) :
    (pc : LockPc σ α ω) → Decidable (s.MayGo ok pc)
  | .idle => isTrue trivial
  | .waiting _ => inferInstanceAs (Decidable (_ ∨ _))
  | .taking o => inferInstanceAs (Decidable (ok s.shared o))
  | .holding _ _ => isTrue trivial

instance Sound.decidable [∀ s o, Decidable (ok s o)] (s : Locked n σ α ω) :
    (e : LockEvent n ω) → Decidable (s.Sound ok e)
  | .call _ _ => isTrue trivial
  | .run t => MayGo.decidable ok s (s.pc t)

/-- One thread at most has found the flag clear. What the one that has set it will end with is what
its operation ends with after those that have ended. -/
structure Inv (s₀ : σ) (s : Locked n σ α ω) : Prop where
  alone : ∀ t u, (s.pc t).isInside → (s.pc u).isInside → t = u
  lock : s.lock = true ↔ ∃ t, (s.pc t).isInside ∧ (s.pc t).isTaking = false
  serial : ∃ s₁, Serial (fun o => (body o).run) ok s₀ s.log s₁ ∧ (s.lock = false → s.shared = s₁) ∧
    ∀ t o p, s.pc t = .holding o p → ok s₁ o ∧ p.run s.shared = (body o).run s₁

variable {body ok} {s₀ : σ} {s s' : Locked n σ α ω} {t : Fin n} {o : ω}

theorem inv_init (s₀ : σ) : Inv body ok s₀ (init n s₀ : Locked n σ α ω) where
  alone t u ht := by simp [init, LockPc.isInside] at ht
  lock := by simp [init, LockPc.isInside]
  serial := ⟨s₀, .nil, fun _ => rfl, fun t o p h => by simp [init] at h⟩

theorem goto_pc (s : Locked n σ α ω) (t u : Fin n) (pc : LockPc σ α ω) :
    (s.goto t pc).pc u = if u = t then pc else s.pc u := by
  simp [goto, Function.update_apply]

theorem Inv.outside (h : Inv body ok s₀ s) (ht : (s.pc t).isInside = false) {pc : LockPc σ α ω}
    (hpc : pc.isInside = false) : Inv body ok s₀ (s.goto t pc) := by
  have hinside : ∀ u, ((s.goto t pc).pc u).isInside = (s.pc u).isInside := by
    intro u
    rw [goto_pc]
    split
    case isTrue hu => rw [hu, hpc, ht]
    case isFalse => rfl
  have hsame : ∀ u, (s.pc u).isInside → (s.goto t pc).pc u = s.pc u := by
    intro u hu
    rw [goto_pc, if_neg]
    rintro rfl
    rw [ht] at hu
    cases hu
  obtain ⟨s₁, hs, hfree, hheld⟩ := h.serial
  refine ⟨fun u v hu hv => h.alone u v (hinside u ▸ hu) (hinside v ▸ hv), h.lock.trans ?_, s₁, hs,
    hfree, ?_⟩
  · constructor <;> rintro ⟨u, hu, htk⟩
    · exact ⟨u, by rwa [hinside], by rwa [hsame u hu]⟩
    · have hu' : (s.pc u).isInside := hinside u ▸ hu
      exact ⟨u, hu', hsame u hu' ▸ htk⟩
  · intro u o p hu
    have hu' : (s.pc u).isInside := by rw [← hinside, hu]; rfl
    exact hheld u o p (hsame u hu' ▸ hu)

theorem inv_inside (pc : LockPc σ α ω) (ht : ∀ u ≠ t, (s.pc u).isInside = false)
    (hnew : ∃ s₁, Serial (fun o => (body o).run) ok s₀ s'.log s₁
      ∧ (s'.lock = false → s'.shared = s₁) ∧ ∀ o p, pc = .holding o p →
      ok s₁ o ∧ p.run s'.shared = (body o).run s₁)
    (hlock : s'.lock = (pc.isInside && !pc.isTaking))
    (hs' : s'.pc = (s.goto t pc).pc) : Inv body ok s₀ s' := by
  have hout : ∀ u, (s'.pc u).isInside → u = t := by
    intro u hu
    by_contra hne
    rw [hs', goto_pc, if_neg hne, ht u hne] at hu
    cases hu
  have hat : s'.pc t = pc := by rw [hs', goto_pc, if_pos rfl]
  obtain ⟨s₁, hs, hfree, hheld⟩ := hnew
  refine ⟨fun u v hu hv => (hout u hu).trans (hout v hv).symm, ?_, s₁, hs, hfree, ?_⟩
  · rw [hlock]
    constructor
    · intro hl
      exact ⟨t, by rw [hat]; simp_all, by rw [hat]; simp_all⟩
    · rintro ⟨u, hu, htk⟩
      obtain rfl := hout u hu
      rw [hat] at hu htk
      simp [hu, htk]
  · intro u o p hu
    have hut : u = t := hout u (by rw [hu]; rfl)
    rw [hut, hat] at hu
    exact hheld o p hu

theorem Inv.others (h : Inv body ok s₀ s) (ht : (s.pc t).isInside) :
    ∀ u ≠ t, (s.pc u).isInside = false := by
  intro u hne
  by_contra hu
  exact hne (h.alone u t (by simpa using hu) ht)

theorem Inv.hold {p : Access σ α} (h : Inv body ok s₀ s) (hpc : s.pc t = .holding o p) :
    Inv body ok s₀ (s.hold t o p) := by
  obtain ⟨s₁, hs, -, hheld⟩ := h.serial
  obtain ⟨hok, hrun⟩ := hheld t o p hpc
  have hothers := h.others (t := t) (by rw [hpc]; rfl)
  have hlock : s.lock = true := h.lock.2 ⟨t, by rw [hpc]; rfl, by rw [hpc]; rfl⟩
  -- what the program ends with stays the same from access to access
  have hgo : Inv body ok s₀ { s.goto t (.holding o (p.step s.shared).1) with
      shared := (p.step s.shared).2 } := by
    refine inv_inside (.holding o (p.step s.shared).1) hothers ⟨s₁, hs, fun hl => ?_,
      fun o' p' hp => ?_⟩ hlock rfl
    · rw [show s.lock = false from hl] at hlock
      cases hlock
    · cases hp
      exact ⟨hok, (p.run_step s.shared).trans hrun⟩
  cases p with
  | done a =>
    have hend : (body o).run s₁ = (a, s.shared) := hrun.symm
    have hcons := hs.cons hok
    rw [hend] at hcons
    exact inv_inside .idle hothers ⟨s.shared, hcons, fun _ => rfl, by simp⟩ rfl rfl
  | load k => exact hgo
  | store f k => exact hgo

theorem Inv.step {e : LockEvent n ω} (h : Inv body ok s₀ s) (hg : s.Sound ok e)
    (he : s.step body e = .ok s') :
    Inv body ok s₀ s' := by
  obtain ⟨s₁, hs, hfree, hheld⟩ := h.serial
  cases e with
  | call t o =>
    simp only [Locked.step] at he
    split at he
    case h_1 hpc =>
      cases he
      exact h.outside (by rw [hpc]; rfl) rfl
    case h_2 => cases he
  | run t =>
    simp only [Sound] at hg
    simp only [Locked.step] at he
    rcases hpc : s.pc t with _ | o | o | ⟨o, p⟩ <;> rw [hpc] at he hg <;> cases he
    · split
      case isTrue => exact h
      case isFalse hl =>
        have hnone : ∀ u, (s.pc u).isInside = false := by
          intro u
          by_contra hu
          exact hl (h.lock.2 ⟨u, by simpa using hu, hg.resolve_left hl u⟩)
        exact inv_inside (.taking o) (fun u _ => hnone u) ⟨s₁, hs, hfree,
          by simp⟩ (Bool.eq_false_iff.2 hl) rfl
    · have hl : s.lock = false := by
        by_contra hl
        obtain ⟨u, hu, htk⟩ := h.lock.1 (by simpa using hl)
        rw [h.alone u t hu (by rw [hpc]; rfl), hpc] at htk
        cases htk
      refine inv_inside (.holding o (body o)) (h.others (by rw [hpc]; rfl)) ⟨s₁, hs, by simp,
        fun o' p hp => ?_⟩ rfl rfl
      cases hp
      rw [← hfree hl]
      exact ⟨hg, rfl⟩
    · exact h.hold hpc

end Locked

end Optee
