import Mathlib.Data.List.Count
import Optee.SvcEnum

/-!
# The directory of an enumerator

An enumerator has both its pointers set, or none, or a file system without a directory, which is
where a failed start leaves it (`Progress`).
-/

namespace Optee.SvcEnum

open Prog

variable {F : Type}

/-! ## The calls on an enumerator -/

/-- How far an enumerator got. -/
inductive Progress where
  | idle
  | started
  | failed
  | freed
  deriving DecidableEq

/-- A start fails where the directory cannot be opened. With an unknown storage id an enumerator
that was never started is left alone. -/
def Progress.after : Progress → EnumCall F → Progress
  | .freed, _ => .freed
  | .idle, .start none _ => .idle
  | _, .start none _ => .failed
  | _, .start (some _) (.ok ()) => .started
  | _, .start (some _) (.error _) => .failed
  | _, .reset => .idle
  | p, .next _ _ => p
  | _, .free => .freed

/-- A call that cannot stop. -/
def Progress.step (p : Progress) (call : EnumCall F) : Except Stop Progress := .ok (p.after call)

/-- An object is asked for after a start that failed. -/
def readsAfterFailure (p : Progress) : EnumCall F → Bool
  | .next (.ok ()) _ => p = .failed
  | _ => false

variable [DecidableEq F]

/-- The directory that is open, with its file system. -/
def current : List (DirCall F) → Option (F × ℕ)
  | .opendir f (some d) :: _ => some (f, d)
  | .closedir f (some d) :: cs => if current cs = some (f, d) then none else current cs
  | _ :: cs => current cs
  | [] => none

/-- Only the directory that is open was read. -/
def ReadsCurrent : List (DirCall F) → Prop
  | .readdir f dir :: cs => (∃ d, dir = some d ∧ current cs = some (f, d)) ∧ ReadsCurrent cs
  | _ :: cs => ReadsCurrent cs
  | [] => True

/-- The pointers of the enumerator are those of the directory that is open. -/
def Matches (cs : List (DirCall F)) : Option (TeeStorageEnum F) → Progress → Prop
  | some ⟨none, none⟩, .idle | some ⟨none, some _⟩, .failed | none, .freed => current cs = none
  | some ⟨some d, some f⟩, .started => current cs = some (f, d)
  | _, _ => False

theorem Matches.eq_iff {cs : List (DirCall F)} {e : Option (TeeStorageEnum F)} {p : Progress}
    {f : F} {d : ℕ} (h : Matches cs e p) :
    e = some ⟨some d, some f⟩ ↔ current cs = some (f, d) := by
  unfold Matches at h
  split at h
  · simp [h]
  · simp [h]
  · simp [h]
  · simp [h, and_comm]
  · exact h.elim

/-- Every directory is opened once and closed once, if it is not the open one. -/
structure Accounts (cs : List (DirCall F)) (n : ℕ) : Prop where
  fresh : ∀ f d, .opendir f (some d) ∈ cs → d < n
  once : ∀ f d, cs.count (.closedir f (some d)) + (if current cs = some (f, d) then 1 else 0)
    = cs.count (.opendir f (some d))
  opened : ∀ f d, cs.count (.opendir f (some d)) ≤ 1

variable {cs : List (DirCall F)} {n d : ℕ} {f : F}

theorem Accounts.skip (h : Accounts cs n) {c : DirCall F} (hc : current (c :: cs) = current cs)
    (ho : ∀ f d, c ≠ .opendir f (some d))
    (hn : ∀ f d, c ≠ .closedir f (some d)) : Accounts (c :: cs) n := by
  refine ⟨fun f d hd => ?_, fun f d => ?_, fun f d => ?_⟩
  · rcases List.mem_cons.1 hd with hd | hd
    · exact absurd hd.symm (ho f d)
    · exact h.fresh f d hd
  · rw [hc, List.count_cons_of_ne (hn f d), List.count_cons_of_ne (ho f d)]
    exact h.once f d
  · rw [List.count_cons_of_ne (ho f d)]
    exact h.opened f d

theorem Accounts.open (h : Accounts cs n) (hc : current cs = none) :
    Accounts (.opendir f (some n) :: cs) (n + 1) := by
  have hnew : ∀ f', cs.count (.opendir f' (some n)) = 0 := fun f' =>
    List.count_eq_zero.2 fun hm => absurd (h.fresh f' n hm) (lt_irrefl n)
  refine ⟨fun f' d hd => ?_, fun f' d => ?_, fun f' d => ?_⟩
  · rcases List.mem_cons.1 hd with hd | hd
    · cases hd
      exact Nat.lt_succ_self n
    · exact (h.fresh f' d hd).trans (Nat.lt_succ_self n)
  · have hold := h.once f' d
    rw [hc, if_neg nofun] at hold
    simp only [current, List.count_cons, beq_iff_eq, reduceCtorEq, if_false, Option.some.injEq,
      Prod.mk.injEq, DirCall.opendir.injEq]
    omega
  · have hle := h.opened f' d
    rw [List.count_cons]
    split_ifs with heq
    · rw [beq_iff_eq] at heq
      cases heq
      rw [hnew]
    · exact hle

theorem current_close (hc : current cs = some (f, d)) :
    current (.closedir f (some d) :: cs) = none := by
  rw [current, if_pos hc]

theorem Accounts.close (h : Accounts cs n) (hc : current cs = some (f, d)) :
    Accounts (.closedir f (some d) :: cs) n := by
  refine ⟨fun f' d' hd => ?_, fun f' d' => ?_, fun f' d' => ?_⟩
  · rcases List.mem_cons.1 hd with hd | hd
    · cases hd
    · exact h.fresh f' d' hd
  · have hold := h.once f' d'
    rw [hc] at hold
    rw [current_close hc]
    simp only [List.count_cons, beq_iff_eq, reduceCtorEq, if_false, Option.some.injEq,
      Prod.mk.injEq, DirCall.closedir.injEq] at hold ⊢
    omega
  · simp only [List.count_cons, beq_iff_eq, reduceCtorEq, if_false]
    exact h.opened f' d'

/-- The pointers and the accounts are right. -/
structure Inv (s : State F) (p : Progress) : Prop where
  pointers : Matches s.calls s.enum p
  accounts : Accounts s.calls s.nextDir

theorem inv_alloc : Inv (State.alloc : State F) .idle :=
  ⟨rfl, ⟨nofun, fun _ _ => rfl, fun _ _ => Nat.zero_le 1⟩⟩

/-- A call keeps the invariant, and reads the open directory unless a start has failed. -/
def Leads (s : State F) (p : Progress) (c : EnumCall F) : Prop :=
  ∃ s', s.step c = .ok s' ∧ Inv s' (p.after c) ∧
    (ReadsCurrent s'.calls ↔ ReadsCurrent s.calls ∧ readsAfterFailure p c = false)

variable {c : EnumCall F}

theorem leads_freed (hc : current cs = none)
    (ha : Accounts cs n) : Leads ⟨none, cs, n⟩ .freed c := by
  have hr : readsAfterFailure .freed c = false := by
    unfold readsAfterFailure
    split <;> rfl
  rcases c <;> exact ⟨_, rfl, ⟨hc, ha⟩, by rw [hr]; simp⟩

theorem leads_idle (hc : current cs = none) (ha : Accounts cs n) :
    Leads ⟨some ⟨none, none⟩, cs, n⟩ .idle c := by
  have hr : readsAfterFailure .idle c = false := by
    unfold readsAfterFailure
    split <;> rfl
  unfold Leads
  rw [hr]
  simp only [and_true]
  rcases c with ⟨- | f, res⟩ | - | ⟨e | u, res⟩ | -
  · exact ⟨_, rfl, ⟨hc, ha⟩, Iff.rfl⟩
  · rcases res with e | u
    · exact ⟨_, rfl, ⟨hc, ha.skip rfl nofun nofun⟩, Iff.rfl⟩
    · exact ⟨_, rfl, ⟨rfl, ha.open hc⟩, Iff.rfl⟩
  all_goals exact ⟨_, rfl, ⟨hc, ha⟩, Iff.rfl⟩

theorem leads_failed (hc : current cs = none) (ha : Accounts cs n) :
    Leads ⟨some ⟨none, some f⟩, cs, n⟩ .failed c := by
  rcases c with ⟨- | f', res⟩ | - | ⟨e | u, res⟩ | -
  · exact ⟨_, rfl, ⟨hc, ha⟩, by simp [readsAfterFailure]⟩
  · rcases res with e | u
    · exact ⟨_, rfl, ⟨hc, ha.skip rfl nofun nofun⟩, by simp [readsAfterFailure, ReadsCurrent]⟩
    · exact ⟨_, rfl, ⟨rfl, ha.open hc⟩, by simp [readsAfterFailure, ReadsCurrent]⟩
  · exact ⟨_, rfl, ⟨hc, ha.skip rfl nofun nofun⟩, by simp [readsAfterFailure, ReadsCurrent]⟩
  · exact ⟨_, rfl, ⟨hc, ha⟩, by simp [readsAfterFailure]⟩
  · rcases res with e | u
    all_goals
      exact ⟨_, rfl, ⟨hc, ha.skip rfl nofun nofun⟩, by simp [readsAfterFailure, ReadsCurrent]⟩
  · exact ⟨_, rfl, ⟨hc, ha.skip rfl nofun nofun⟩, by simp [readsAfterFailure, ReadsCurrent]⟩

theorem leads_started (hc : current cs = some (f, d)) (ha : Accounts cs n) :
    Leads ⟨some ⟨some d, some f⟩, cs, n⟩ .started c := by
  have hr : readsAfterFailure .started c = false := by
    unfold readsAfterFailure
    split <;> rfl
  have hclose := current_close hc
  unfold Leads
  rw [hr]
  simp only [and_true]
  rcases c with ⟨- | f', res⟩ | - | ⟨e | u, res⟩ | -
  · exact ⟨_, rfl, ⟨hclose, ha.close hc⟩, Iff.rfl⟩
  · rcases res with e | u
    · exact ⟨_, rfl, ⟨hclose, (ha.close hc).skip rfl nofun nofun⟩, Iff.rfl⟩
    · exact ⟨_, rfl, ⟨rfl, (ha.close hc).open hclose⟩, Iff.rfl⟩
  · exact ⟨_, rfl, ⟨hclose, ha.close hc⟩, Iff.rfl⟩
  · exact ⟨_, rfl, ⟨hc, ha⟩, Iff.rfl⟩
  · have hread : ReadsCurrent (.readdir f (some d) :: cs) ↔ ReadsCurrent cs :=
      ⟨And.right, fun h => ⟨⟨d, rfl, hc⟩, h⟩⟩
    rcases res with e | u <;> exact ⟨_, rfl, ⟨hc, ha.skip rfl nofun nofun⟩, hread⟩
  · exact ⟨_, rfl, ⟨hclose, ha.close hc⟩, Iff.rfl⟩

theorem Inv.leads {s : State F} {p : Progress} (h : Inv s p) (c : EnumCall F) : Leads s p c := by
  obtain ⟨enum, cs, n⟩ := s
  obtain ⟨hm, ha⟩ := h
  rcases enum with - | ⟨- | d, - | f⟩ <;> rcases p <;> first | exact hm.elim | skip
  · exact leads_freed hm ha
  · exact leads_idle hm ha
  · exact leads_failed hm ha
  · exact leads_started hm ha

/-! ## Runs -/

theorem inv_exec : ∀ (calls : List (EnumCall F)) {s : State F} {p : Progress}, Inv s p →
    ∃ s', exec State.step s calls = .ok s' ∧ (∃ p', Inv s' p') ∧
      (ReadsCurrent s'.calls ↔ ReadsCurrent s.calls ∧
        Guarded (fun p c => readsAfterFailure p c = false) Progress.step p calls)
  | [], s, p, h => ⟨s, rfl, ⟨p, h⟩, by simp [Guarded]⟩
  | c :: calls, s, p, h => by
    obtain ⟨s₁, hs₁, h₁, hread⟩ := h.leads c
    obtain ⟨s', hs', hp', hread'⟩ := inv_exec calls h₁
    refine ⟨s', ?_, hp', ?_⟩
    · rw [exec, hs₁]
      exact hs'
    · rw [hread', hread, and_assoc]
      exact Iff.rfl

/-- Calls on an enumerator run through, and read from the directory that was opened last and not
closed since, exactly if no next object is asked for after a start that failed and before a reset
or another start. Every directory opened was closed once, apart from one that the enumerator
still has. -/
theorem enumerator_directories (calls : List (EnumCall F)) :
    ∃ s, exec State.step (.alloc : State F) calls = .ok s ∧
      (ReadsCurrent s.calls ↔
        Guarded (fun p c => readsAfterFailure p c = false) Progress.step .idle calls) ∧
      ∀ f d, .opendir f (some d) ∈ s.calls → s.calls.count (.closedir f (some d))
        = if s.enum = some ⟨some d, some f⟩ then 0 else 1 := by
  obtain ⟨s, hs, ⟨p, h⟩, hread⟩ := inv_exec calls inv_alloc
  refine ⟨s, hs, by rw [hread]; exact and_iff_right trivial, fun f d hd => ?_⟩
  have hpos := List.count_pos_iff.2 hd
  have hle := h.accounts.opened f d
  have honce := h.accounts.once f d
  simp only [h.pointers.eq_iff]
  split_ifs at honce ⊢ <;> omega

/-- A start that fails after a good one leaves the file system without a directory, and the next
object is asked for from the null pointer. -/
theorem readdir_after_failed_start :
    ∃ s, exec State.step (.alloc : State Unit) [.start (some ()) (.ok ()),
        .start (some ()) (.error .itemNotFound), .next (.ok ()) (.error .generic)] = .ok s ∧
      .readdir () none ∈ s.calls ∧ ¬ReadsCurrent s.calls := by
  refine ⟨_, rfl, by decide, ?_⟩
  rintro ⟨⟨d, hd, -⟩, -⟩
  cases hd

end Optee.SvcEnum
