import Mathlib.Tactic.Common
import Optee.Lib.Run
import Optee.Notif

/-!
# Only bound notifications are pending

Where OP-TEE sends its notification only while it is bound, what is pending is bound and waits in
the log: it was sent since the bitmap was created and not got since.
-/

namespace Optee.Notif

/-- The bitmap is that of the guest. -/
def Owns (vmId : BitVec 16) : List Obs → Prop
  | [] | .destroyed :: _ => False
  | .created v :: _ => v = vmId
  | .sent _ :: l | .got _ _ :: l => Owns vmId l

/-- The notification was sent and not yet delivered. -/
def Waiting (i : ℕ) : List Obs → Prop
  | [] | .created _ :: _ | .destroyed :: _ => False
  | .sent j :: l => j = i ∨ Waiting i l
  | .got _ bits :: l => bits.getLsbD i = false ∧ Waiting i l

/-- What is pending is bound to a guest that is there, and what was delivered was sent to its guest.
-/
structure Sound (h : History) : Prop where
  pending : ∀ i, h.state.pending.getLsbD i = true → h.state.bound.getLsbD i = true
    ∧ h.state.vmIdValid = true
  destroyed : h.state.vmIdValid = false → h.state.pending = 0 ∧ h.state.bound = 0
  delivered : ∀ later vmId bits earlier, h.log = later ++ .got vmId bits :: earlier →
    ∀ i, bits.getLsbD i = true → Owns vmId earlier ∧ Waiting i earlier

/-- A notification is sent to a guest that has bound it. -/
def SendsBound (h : History) : Event → Prop
  | .send _ =>
    h.state.vmIdValid = true ∧ h.state.bound.getLsbD h.state.doBottomHalfValue.toNat = true
  | _ => True

instance (h : History) : (e : Event) → Decidable (SendsBound h e)
  | .send _ => inferInstanceAs (Decidable (_ ∧ _))
  | .bitmapCreate _ | .bitmapDestroy _ | .bind _ | .unbind _ | .get _ | .setIntid _ | .enable _ =>
    isTrue trivial

/-- All that was delivered had been sent to that guest. -/
def Delivered : List Obs → Prop
  | [] => True
  | .got vmId bits :: l => (∀ i, bits.getLsbD i = true → Owns vmId l ∧ Waiting i l) ∧ Delivered l
  | _ :: l => Delivered l

/-- The invariant of runs, with what was seen so far. -/
structure Inv (s : State) (log : List Obs) : Prop where
  bound : ∀ i, s.pending.getLsbD i = true → s.bound.getLsbD i = true
  absent : s.vmIdValid = false → s.bound = 0
  owner : s.vmIdValid = true → Owns s.vmId log
  waiting : ∀ i, s.pending.getLsbD i = true → Waiting i log
  delivered : Delivered log

theorem eq_zero_of_bits {b : BitVec 64} (h : ∀ i, b.getLsbD i ≠ true) : b = 0 := by
  refine BitVec.eq_of_getLsbD_eq fun i _ => ?_
  simpa using h i

variable {s : State} {log : List Obs} {h h' : History} {e : Event}

theorem Inv.pending_eq_zero (hi : Inv s log) (hv : s.vmIdValid = false) : s.pending = 0 :=
  eq_zero_of_bits fun i hp => by
    have := hi.bound i hp
    rw [hi.absent hv] at this
    simp at this

variable {bits : BitVec 64}

theorem Delivered.of_append {earlier : List Obs} {vmId : BitVec 16} :
    ∀ later : List Obs, Delivered (later ++ .got vmId bits :: earlier) →
      ∀ i, bits.getLsbD i = true → Owns vmId earlier ∧ Waiting i earlier
  | [], hd => hd.1
  | .got _ _ :: later, hd => of_append later hd.2
  | .created _ :: later, hd | .destroyed :: later, hd | .sent _ :: later, hd => of_append later hd

section

variable (hi : Inv h.state h.log)
include hi

theorem Inv.sound : Sound h where
  pending i hp := by
    refine ⟨hi.bound i hp, ?_⟩
    by_contra hv
    rw [hi.pending_eq_zero (Bool.eq_false_iff.2 hv)] at hp
    simp at hp
  destroyed hv := ⟨hi.pending_eq_zero hv, hi.absent hv⟩
  delivered later vmId bits earlier hlog := Delivered.of_append later (hlog ▸ hi.delivered)

theorem Inv.answered {obs : BitVec 64 → List Obs} {r : Reply × State}
    (herr : ∀ err, r.1 = .error err → r.2 = h.state)
    (hok : ∀ bits, r.1 = .ok bits → Inv r.2 (obs bits ++ h.log)) :
    Inv (h.answered obs r).state (h.answered obs r).log := by
  unfold History.answered
  split
  · exact hok _ ‹_›
  · rw [herr _ ‹_›]
    exact hi

theorem Inv.bitmapCreate (args : Args)
    (hok : (handleNotificationBitmapCreate h.state args).1 = .ok bits) :
    Inv (handleNotificationBitmapCreate h.state args).2 (.created (dst args.a1) :: h.log) := by
  unfold handleNotificationBitmapCreate at hok ⊢
  split_ifs at hok ⊢ with hargs hvalid
  have hv : h.state.vmIdValid = false := by simpa using hvalid
  have hno : ∀ i, h.state.pending.getLsbD i ≠ true := fun i => by simp [hi.pending_eq_zero hv]
  exact ⟨hi.bound, nofun, fun _ => rfl, fun i hp => absurd hp (hno i), hi.delivered⟩

theorem Inv.bitmapDestroy (args : Args)
    (hok : (handleNotificationBitmapDestroy h.state args).1 = .ok bits) :
    Inv (handleNotificationBitmapDestroy h.state args).2 (.destroyed :: h.log) := by
  unfold handleNotificationBitmapDestroy at hok ⊢
  split_ifs at hok ⊢ with hargs hused
  obtain ⟨hpending, hbound⟩ : h.state.pending = 0 ∧ h.state.bound = 0 := by simpa using hused
  exact ⟨hi.bound, fun _ => hbound, nofun, fun i hp => by simp [hpending] at hp, hi.delivered⟩

theorem Inv.bind (args : Args) (hok : (handleNotificationBind h.state args).1 = .ok bits)
    : Inv (handleNotificationBind h.state args).2 h.log := by
  unfold handleNotificationBind at hok ⊢
  split_ifs at hok ⊢ with hmbz hflags hvm hused
  have hv : h.state.vmIdValid = true := (Bool.and_eq_true_iff.1 hvm).1
  refine ⟨fun i hp => ?_, fun hv' => ?_, hi.owner, hi.waiting, hi.delivered⟩
  · simp [hi.bound i hp]
  · exact absurd (hv.symm.trans hv') nofun

theorem Inv.unbind (args : Args) (hok : (handleNotificationUnbind h.state args).1 = .ok bits) :
    Inv (handleNotificationUnbind h.state args).2 h.log := by
  unfold handleNotificationUnbind at hok ⊢
  split_ifs at hok ⊢ with hmbz hvm hused
  refine ⟨fun i hp => ?_, fun hv => ?_, hi.owner, hi.waiting, hi.delivered⟩
  · have hnot : (args.bitmap &&& h.state.pending).getLsbD i = false := by simp [not_not.1 hused]
    have hp : h.state.pending.getLsbD i = true := hp
    rw [BitVec.getLsbD_and, hp, Bool.and_true] at hnot
    simp only [BitVec.getLsbD_and, BitVec.getLsbD_not, hi.bound i hp, hnot, BitVec.lt_of_getLsbD hp,
      decide_true, Bool.not_false, Bool.and_self]
  · simp [hi.absent hv]

theorem Inv.get (args : Args) (hok : (handleNotificationGet h.state args).1 = .ok bits) :
    Inv (handleNotificationGet h.state args).2 (.got (dst args.a1) bits :: h.log) := by
  unfold handleNotificationGet at hok ⊢
  split_ifs at hok ⊢ with hmbz hflag hvm
  · cases hok
    exact ⟨hi.bound, hi.absent, hi.owner, fun i hp => ⟨by simp, hi.waiting i hp⟩,
      fun i hb => by simp at hb, hi.delivered⟩
  · cases hok
    obtain ⟨hv, hvm⟩ := Bool.and_eq_true_iff.1 hvm
    have hown := hi.owner hv
    rw [← of_decide_eq_true hvm] at hown
    exact ⟨fun i hp => by simp at hp, hi.absent, hi.owner, fun i hp => by simp at hp,
      fun i hb => ⟨hown, hi.waiting i hb⟩, hi.delivered⟩

theorem Inv.send {value : BitVec 32} {s' : State} (hg : SendsBound h (.send value))
    (hs : notifSendAsync h.state value = .ok s') :
    Inv s' (.sent h.state.doBottomHalfValue.toNat :: h.log) := by
  unfold notifSendAsync at hs
  split_ifs at hs with hassert hlt
  cases hs
  have hpending :
    ∀ i, (h.state.pending ||| BitVec.twoPow 64 h.state.doBottomHalfValue.toNat).getLsbD i = true →
      h.state.pending.getLsbD i = true ∨ h.state.doBottomHalfValue.toNat = i := by
    intro i hp
    simp only [BitVec.getLsbD_or, BitVec.getLsbD_twoPow, Bool.or_eq_true, Bool.and_eq_true,
      decide_eq_true_eq] at hp
    exact hp.imp id And.right
  refine ⟨fun i hp => ?_, hi.absent, hi.owner, fun i hp => ?_, hi.delivered⟩
  · rcases hpending i hp with hp | rfl
    · exact hi.bound i hp
    · exact hg.2
  · rcases hpending i hp with hp | rfl
    · exact .inr (hi.waiting i hp)
    · exact .inl rfl

theorem Inv.step (hg : SendsBound h e) (hs : step h e = .ok h') : Inv h'.state h'.log := by
  cases e with
  | bitmapCreate args =>
    cases hs
    refine hi.answered (fun err herr => ?_) fun bits hok => hi.bitmapCreate args hok
    unfold handleNotificationBitmapCreate at herr ⊢
    split_ifs at herr ⊢ <;> rfl
  | bitmapDestroy args =>
    cases hs
    refine hi.answered (fun err herr => ?_) fun bits hok => hi.bitmapDestroy args hok
    unfold handleNotificationBitmapDestroy at herr ⊢
    split_ifs at herr ⊢ <;> rfl
  | bind args =>
    cases hs
    refine hi.answered (fun err herr => ?_) fun bits hok => hi.bind args hok
    unfold handleNotificationBind at herr ⊢
    split_ifs at herr ⊢ <;> rfl
  | unbind args =>
    cases hs
    refine hi.answered (fun err herr => ?_) fun bits hok => hi.unbind args hok
    unfold handleNotificationUnbind at herr ⊢
    split_ifs at herr ⊢ <;> rfl
  | get args =>
    cases hs
    refine hi.answered (fun err herr => ?_) fun bits hok => hi.get args hok
    unfold handleNotificationGet at herr ⊢
    split_ifs at herr ⊢ <;> rfl
  | setIntid intid =>
    cases hs
    exact ⟨hi.bound, hi.absent, hi.owner, hi.waiting, hi.delivered⟩
  | enable value =>
    cases hs
    unfold enableAsyncNotif
    split
    · exact ⟨hi.bound, hi.absent, hi.owner, hi.waiting, hi.delivered⟩
    · exact hi
  | send value =>
    simp only [Notif.step] at hs
    cases hsend : notifSendAsync h.state value with
    | error fault => rw [hsend] at hs; cases hs
    | ok s' =>
      rw [hsend] at hs
      cases hs
      exact hi.send hg hsend

end

/-- Where OP-TEE sends only what is bound, pending notifications are bound and their receiver's
bitmap exists, none is left by `FFA_NOTIFICATION_BITMAP_DESTROY`, and each that a VM gets was sent
since its bitmap was created and since it last got it. -/
theorem notifications_sound {events : List Event} (hg : Guarded SendsBound step .init events)
    {h : History} (hrun : exec step .init events = .ok h) : Sound h := by
  have hinit : Inv History.init.state History.init.log :=
    ⟨fun i hp => by simp [History.init, State.init] at hp, fun _ => rfl, nofun,
      fun i hp => by simp [History.init, State.init] at hp, trivial⟩
  exact (exec_invariant (P := fun h => Inv h.state h.log)
    (fun _ _ _ hi hg hs => hi.step hg hs) hinit hg hrun).sound

/-- The arguments of a call that names a guest. -/
def vmArgs (vmId : BitVec 64) : Args := ⟨vmId, 0, 0, 0, 0, 0, 0⟩

/-- A guest binds a notification, gets it and goes. -/
def bindAndGet : List Event :=
  [.setIntid 8, .bitmapCreate (vmArgs 1), .bind ⟨1, 0, 8, 0, 0, 0, 0⟩, .enable 3, .send 0,
    .get ⟨1, 1, 0, 0, 0, 0, 0⟩, .unbind ⟨1, 0, 8, 0, 0, 0, 0⟩, .bitmapDestroy (vmArgs 1)]

theorem notifications_sound_bindAndGet :
    ∃ h, exec step .init bindAndGet = .ok h ∧ h.log = [.destroyed, .got 1 8, .sent 3, .created 1]
      ∧ Sound h := by
  obtain ⟨h, hrun, hlog⟩ : ∃ h, exec step .init bindAndGet = .ok h ∧ h.log = [.destroyed, .got 1 8,
    .sent 3, .created 1] :=
    exists_ok_of_decide (by decide +kernel)
  exact ⟨h, hrun, hlog, notifications_sound (by decide +kernel) hrun⟩

/-- OP-TEE sends its notification before there is a bitmap, and the VM whose bitmap is created later
gets it. -/
theorem send_unbound :
    (∃ h, exec step .init [.setIntid 8, .enable 3, .send 0] = .ok h ∧ ¬Sound h) ∧
      ∃ h, exec step .init [.setIntid 8, .enable 3, .send 0, .bitmapCreate (vmArgs 1),
        .get ⟨1, 1, 0, 0, 0, 0, 0⟩] = .ok h ∧ ¬Sound h := by
  constructor
  · obtain ⟨h, hrun, hp, hv⟩ : ∃ h, exec step .init [.setIntid 8, .enable 3, .send 0] = .ok h ∧
        h.state.pending.getLsbD 3 = true ∧ h.state.vmIdValid = false :=
        exists_ok_of_decide (by decide +kernel)
    exact ⟨h, hrun, fun hsound => absurd ((hsound.pending 3 hp).2.symm.trans hv) nofun⟩
  · obtain ⟨h, hrun, hlog⟩ : ∃ h, exec step .init [.setIntid 8, .enable 3, .send 0,
        .bitmapCreate (vmArgs 1), .get ⟨1, 1, 0, 0, 0, 0, 0⟩] = .ok h
        ∧ h.log = [.got 1 8, .created 1, .sent 3] :=
      exists_ok_of_decide (by decide +kernel)
    exact ⟨h, hrun, fun hsound => (hsound.delivered [] 1 8 _ hlog 3 (by decide)).2⟩

end Optee.Notif
