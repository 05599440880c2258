import Optee.Lib.Threads
import Optee.TaManager

/-!
# References to a session

A frame has one role for at most one session: it opens it, closes it, or uses it. A session that is
not freed counts the references of the roles (`Alive`). A step moves one frame from one role to
another for one session (`Session.Move`), which keeps this.
-/

namespace Optee.TaManager

variable {n : ℕ}

/-- What frames have of a session, added up. -/
structure Has where
  refs : ℕ
  opens : ℕ
  closes : ℕ
  uses : ℕ
  unlinks : ℕ
  offs : ℕ

def Has.add (x y : Has) : Has :=
  ⟨x.refs + y.refs, x.opens + y.opens, x.closes + y.closes, x.uses + y.uses, x.unlinks + y.unlinks,
    x.offs + y.offs⟩

/-- What one role has. -/
def Role.has : Option Role → Has
  | some r => ⟨r.refs, r.opens, r.closes, r.uses, r.unlinks, r.offs⟩
  | none => ⟨0, 0, 0, 0, 0, 0⟩

/-- The fields of a session that was not freed are what frames have of it. -/
structure Alive (σ : Session n) (listed : Prop) (x : Has) : Prop where
  refs : σ.refCount = x.refs + σ.leaked.toNat
  listed_iff : listed ↔ x.offs = 0
  unlink : σ.unlink.toNat = x.unlinks
  off : 0 < x.offs → x.refs = 1
  phase : σ.settled = true ∧ x.opens = 0 ∧ x.closes ≤ 1
    ∨ σ.settled = false ∧ x.opens + x.closes = 1 ∧ x.uses = 0

/-- A session that was freed is on no list and in no frame. -/
def SessOk (σ : Session n) (listed : Prop) (x : Has) : Prop :=
  if σ.freed then ¬ listed ∧ x.opens = 0 ∧ x.closes = 0 ∧ x.uses = 0 else Alive σ listed x

/-- What holds of any sum of roles. -/
structure Bounds (x : Has) : Prop where
  users : x.uses + x.offs ≤ x.refs
  unlinks : x.unlinks ≤ x.closes
  refs : x.refs ≤ x.opens + x.closes + x.uses

/-! ## Moves -/

/-- What a step of thread `t` makes of a session and of the role of its frame, where the frames have
`x` of the session. -/
inductive Session.Move (t : Fin n) (σ : Session n) (x : Has) :
    Option Role → Session n → Option Role → Prop
  -- the opener
  | setup {ctx clntId opened} :
    Move t σ x (some .opener) { σ with ctx := ctx, clntId := clntId, opened := opened }
      (some .opener)
  | undo : Move t σ x (some .opener) σ (some .undoer)
  | leak : Move t σ x (some .opener) { σ with leaked := true } none
  | put {r} : r = .returner ∨ r = .finder →
    Move t σ x (some .opener) { σ with refCount := σ.refCount - 1 } (some r)
  | done : Move t σ x (some .returner) { σ with ready := true } none
  -- users
  | get : σ.settled = true → x.offs = 0 → σ.lockThread = none →
    Move t σ x none { σ with refCount := σ.refCount + 1, lockThread := some t } (some .user)
  | getWait : σ.settled = true → x.offs = 0 →
    Move t σ x none { σ with refCount := σ.refCount + 1 } (some .userWait)
  | getCancel : σ.settled = true → x.offs = 0 →
    Move t σ x none { σ with refCount := σ.refCount + 1 } (some .canceller)
  | lock : σ.lockThread = none →
    Move t σ x (some .userWait) { σ with lockThread := some t } (some .user)
  | giveUp : Move t σ x (some .userWait) { σ with refCount := σ.refCount - 1 } none
  | drop : σ.lockThread = some t →
    Move t σ x (some .user) { σ with refCount := σ.refCount - 1, lockThread := none } none
  | dropCancel :
    Move t σ x (some .canceller) { σ with refCount := σ.refCount - 1 } none
  -- closers
  | find : σ.settled = true → x.closes = 0 → Move t σ x none σ (some .finder)
  | getClose : σ.lockThread = none →
    Move t σ x (some .finder) { σ with refCount := σ.refCount + 1, lockThread := some t }
      (some .closer)
  | getCloseWait :
    Move t σ x (some .finder) { σ with refCount := σ.refCount + 1 } (some .closerWait)
  | lockClose : σ.lockThread = none →
    Move t σ x (some .closerWait) { σ with lockThread := some t } (some .closer)
  | deny : σ.settled = true → Move t σ x (some .closer) σ (some .user)
  | mark : Move t σ x (some .closer) { σ with unlink := true } (some .unlinker)
  | markRemove : σ.refCount = 1 →
    Move t σ x (some .closer) { σ with unlink := true } (some .remover)
  | remove : σ.refCount = 1 → Move t σ x (some .unlinker) σ (some .remover)
  | free {r} : r = .remover ∨ r = .undoer → Move t σ x (some r) { σ with freed := true } none

variable {t : Fin n} {σ σ' : Session n} {listed : Prop} {y : Has} {ρ ρ' : Option Role}

/-- The session is taken off its list. -/
def Removes (ρ ρ' : Option Role) : Prop := (Role.has ρ).offs < (Role.has ρ').offs

instance : Decidable (Removes ρ ρ') := inferInstanceAs (Decidable (_ < _))

theorem Alive.found {r : Role} (h : Alive σ listed (y.add (Role.has (some r)))) (hb : Bounds y)
    (hr : r = .finder ∨ r = .closer ∨ r = .closerWait) : listed ∧ σ.unlink = false := by
  obtain ⟨-, hlist, hunl, hoff, hphase⟩ := h
  obtain ⟨busers, bunl, brefs⟩ := hb
  rcases hr with rfl | rfl | rfl <;>
    simp only [Has.add, Role.has, Role.refs, Role.opens, Role.closes, Role.uses, Role.unlinks,
      Role.offs, Nat.add_zero] at * <;> grind

theorem Alive.move (h : Alive σ listed (y.add (Role.has ρ))) (hb : Bounds y)
    (hm : σ.Move t (y.add (Role.has ρ)) ρ σ' ρ') (hfree : σ.freed = false) :
    SessOk σ' (listed ∧ ¬ Removes ρ ρ') (y.add (Role.has ρ')) := by
  obtain ⟨busers, bunl, brefs⟩ := hb
  obtain ⟨hrefs, hlist, hunl, hoff, hphase⟩ := h
  unfold SessOk
  cases hm with
  | free hr =>
    rcases hr with rfl | rfl <;>
      simp only [Has.add, Role.has, Role.refs, Role.opens, Role.closes, Role.uses, Role.unlinks,
        Role.offs, Removes, Nat.add_zero, if_true] at * <;> grind
  | put hr =>
    rcases hr with rfl | rfl <;>
      simp only [Has.add, Role.has, Role.refs, Role.opens, Role.closes, Role.uses, Role.unlinks,
        Role.offs, Removes, Nat.add_zero, Session.settled, hfree, Bool.false_eq_true, if_false]
        at * <;> constructor <;> grind [Session.settled]
  | _ =>
    simp only [Has.add, Role.has, Role.refs, Role.opens, Role.closes, Role.uses, Role.unlinks,
      Role.offs, Removes, Nat.add_zero, Session.settled, hfree, Bool.false_eq_true, if_false] at *
    constructor <;> grind [Session.settled]

theorem Session.Move.id_eq {x : Has} (hm : σ.Move t x ρ σ' ρ') : σ'.id = σ.id := by
  cases hm <;> rfl

theorem Session.Move.owner_eq {x : Has} (hm : σ.Move t x ρ σ' ρ') : σ'.owner = σ.owner := by
  cases hm <;> rfl

/-- A session as it may be later. -/
structure Session.Later (σ σ' : Session n) : Prop where
  id : σ'.id = σ.id
  owner : σ'.owner = σ.owner
  ctx : σ'.ctx = σ.ctx
  opened : σ'.opened = σ.opened
  ready : σ.ready = true → σ'.ready = true
  leaked : σ.leaked = true → σ'.leaked = true

theorem Session.Later.refl : σ.Later σ := ⟨rfl, rfl, rfl, rfl, fun h => h, fun h => h⟩

theorem Session.Later.settled (h : σ.Later σ') (hs : σ.settled = true) : σ'.settled = true := by
  unfold Session.settled at *
  rw [Bool.or_eq_true] at *
  exact hs.imp h.ready h.leaked

theorem Session.Move.later {x : Has} (hm : σ.Move t x ρ σ' ρ')
    (hρ : ρ ≠ some .opener) : σ.Later σ' := by
  cases hm <;> first
    | exact absurd rfl hρ
    | exact ⟨rfl, rfl, rfl, rfl, fun h => by simp [h], fun h => by simp [h]⟩

/-- The lock that a role has. -/
def Role.lockOf : Option Role → ℕ
  | some r => r.locks
  | none => 0

theorem Session.Move.lock_kept {x : Has} (hm : σ.Move t x ρ σ' ρ') (hfree : σ'.freed = false)
    (had : Fin n → ℕ) (h : ∀ u, had u + (if u = t then Role.lockOf ρ else 0)
      = if σ.lockThread = some u then 1 else 0) (u : Fin n) :
    had u + (if u = t then Role.lockOf ρ' else 0) = if σ'.lockThread = some u then 1 else 0 := by
  have hu := h u
  cases hm with
  | put hr => rcases hr with rfl | rfl <;> simpa [Role.lockOf, Role.locks] using hu
  | free hr => simp at hfree
  | _ => simp [Role.lockOf, Role.locks] at hu ⊢ <;> grind

end Optee.TaManager
