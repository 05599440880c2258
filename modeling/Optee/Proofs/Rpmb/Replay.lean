import Mathlib
import Optee.Proofs.Rpmb.ByteAccess

/-!
# The counter of the write requests

A response to a write sets the counter of the next attempt before its own counter and its MAC are
looked at (`write_signed_for_unverified`).
-/

namespace Optee.Rpmb

open RpmbM

variable {W : Type} {C : Crypto} {N : World W} {key : Key}

/-! ## The record of exchanges -/

/-- A request and the answer to it. -/
structure Exchange where
  frames : List Frame
  resp : Option (ℕ → Frame)

/-- The normal world, with all exchanges written down. -/
def recorded (N : World W) : World (W × List Exchange) where
  getDevInfo w := ((N.getDevInfo w.1).1, ((N.getDevInfo w.1).2, w.2))
  exchange n frames w :=
    ((N.exchange n frames w.1).1,
      ((N.exchange n frames w.1).2, ⟨frames, (N.exchange n frames w.1).1⟩ :: w.2))

/-- With the nonce of the request for the counter, or about the blocks of the write request and with
the next counter. -/
def answers (req resp : Body) : Bool :=
  match req.msgType with
  | .reqWriteCounterValRead => resp.msgType = .respWriteCounterValRead ∧ resp.nonce = req.nonce
  | .reqAuthDataWrite => resp.msgType = .respAuthDataWrite ∧ resp.address = req.address
    ∧ resp.writeCounter = u32 (req.writeCounter + 1)
  | _ => false

variable (C key) in
/-- The counter in the response, where its result is good, it answers the request and its MAC is
right. -/
def authentic (e : Exchange) : Option ℕ :=
  match e.frames.head?, e.resp with
  | some req, some resp =>
    if (resp 0).opResult % 64 = 0 ∧ answers req.toBody (resp 0).toBody
        ∧ (resp 0).keyMac = C.hmac key [(resp 0).toBody] then
      some (resp 0).writeCounter
    else none
  | _, _ => none

variable (C key) in
/-- The counter that the last authentic answer had. -/
def obtained : List Exchange → Option ℕ
  | [] => none
  | e :: es => (authentic C key e).or (obtained es)

variable (C key) in
/-- Every write has the counter that was obtained last. -/
def Follows : List Exchange → Prop
  | [] => True
  | e :: es =>
    (∀ f ∈ e.frames, f.msgType = .reqAuthDataWrite → obtained C key es = some f.writeCounter)
    ∧ Follows es

instance decidableFollows : ∀ es, Decidable (Follows C key es)
  | [] => isTrue trivial
  | e :: es =>
    have := decidableFollows es
    inferInstanceAs (Decidable (_ ∧ _))

variable (C key) in
/-- An answer that confirms a write is the device's own. -/
def Genuine (e : Exchange) : Prop :=
  ∀ req ∈ e.frames.head?, ∀ resp ∈ e.resp, req.msgType = .reqAuthDataWrite →
    (resp 0).opResult % 64 = 0 →
    (resp 0).msgType = .respAuthDataWrite → (resp 0).address = req.address →
      (resp 0).writeCounter = u32 (req.writeCounter + 1)
      ∧ (resp 0).keyMac = C.hmac key [(resp 0).toBody]

instance (e : Exchange) : Decidable (Genuine C key e) :=
  inferInstanceAs (Decidable (∀ req ∈ e.frames.head?, ∀ resp ∈ e.resp, _))

inductive Call where
  | init
  | writeBlk (blkIdx : ℕ) (dataBlks : List UInt8) (blkcnt : ℕ) (fek : Option Fek)
    (uuid : Option Uuid)

def Call.run (C : Crypto) (N : World W) (cfg : Config) : Call → RpmbM W Unit
  | .init => teeRpmbInit C N cfg
  | .writeBlk blkIdx dataBlks blkcnt fek uuid =>
    teeRpmbWriteBlk C N cfg blkIdx dataBlks blkcnt fek uuid

/-- Calls one after the other, also after one that failed. -/
def runCalls (C : Crypto) (N : World W) (cfg : Config) : List Call → RpmbM W Unit
  | [] => pure ()
  | c :: cs => do
    let _ ← Prog.attempt (c.run C N cfg)
    runCalls C N cfg cs

def boot (o : Oracle) (w : W) : State (W × List Exchange) := ⟨none, false, o, (w, [])⟩

/-! ## Requests and responses -/

section Frames

variable {s s' s'' : State (W × List Exchange)} {ctx : Ctx} {fek : Option Fek} {uuid : Option Uuid}

/-- Context and exchanges are as before. -/
def Alike (s s' : State (W × List Exchange)) : Prop := s'.ctx = s.ctx ∧ s'.world.2 = s.world.2

theorem Alike.refl (s : State (W × List Exchange)) : Alike s s := ⟨rfl, rfl⟩

theorem Alike.trans (h : Alike s s') (h' : Alike s' s'') : Alike s s'' :=
  ⟨h'.1.trans h.1, h'.2.trans h.2⟩

section Rules

variable {α : Type} {Q : α → State (W × List Exchange) → Prop}
  {E : TeeError → State (W × List Exchange) → Prop} {H : Stop → State (W × List Exchange) → Prop}

theorem wp_liftOracle {m : OracleM α} (hQ : ∀ a s', Alike s s' → Q a s')
    (hE : ∀ e s', Alike s s' → E e s')
    (hH : ∀ x s', Alike s s' → H x s') : Prog.wp (liftOracle m) Q E H s :=
  Prog.wp_zoom.2 (Prog.wp_mono Prog.wp_true (fun a o _ => hQ a _ ⟨rfl, rfl⟩)
    (fun e o _ => hE e _ ⟨rfl, rfl⟩) fun x o _ => hH x _ ⟨rfl, rfl⟩)

theorem wp_getCtx {Q : Ctx → State (W × List Exchange) → Prop} (hctx : s.ctx = some ctx)
    (hQ : Q ctx s) :
    Prog.wp getCtx Q E H s := by
  unfold Prog.wp
  rw [getCtx_eq hctx]
  exact hQ

theorem wp_invoke {n : ℕ} {frames : List Frame} {Q : (ℕ → Frame) → State (W × List Exchange) → Prop}
    (hQ : ∀ w resp, Q resp { s with world := (w, ⟨frames, some resp⟩ :: s.world.2) })
    (hE : ∀ w, E .communication { s with world := (w, ⟨frames, none⟩ :: s.world.2) }) :
    Prog.wp (invoke (recorded N) n frames) Q E H s := by
  unfold Prog.wp
  rw [invoke, recorded]
  dsimp only
  rcases N.exchange n frames s.world.1 with ⟨_ | resp, w⟩
  · exact hE w
  · exact hQ w resp

end Rules

/-- The frame has what the request is made of. -/
def Carries (raw : RawReq) (f : Frame) : Prop :=
  f.msgType = raw.msgType ∧ f.writeCounter = raw.writeCounter.getD 0 ∧ f.address = raw.blkIdx.getD 0
    ∧ f.nonce = raw.nonce.getD (ByteVec.zero _)

variable {frames : List Frame} {resp : ℕ → Frame} {cnt n : ℕ}

theorem carries_packMac {raw : RawReq} (h : ∀ f ∈ frames, Carries raw f) :
    ∀ f ∈ packMac C key frames, Carries raw f := by
  intro f hf
  unfold packMac at hf
  split at hf
  · exact absurd hf List.not_mem_nil
  · rename_i last hlast
    rcases List.mem_append.1 hf with hf | hf
    · exact h f (List.dropLast_subset _ hf)
    · obtain rfl := List.mem_singleton.1 hf
      exact h last (List.mem_of_getLast? hlast)

theorem packMac_ne_nil (h : frames ≠ []) : packMac C key frames ≠ [] := by
  unfold packMac
  rw [List.getLast?_eq_getLast_of_ne_nil h]
  simp

theorem wp_reqPack (raw : RawReq) (n : ℕ) (hctx : s.ctx = some ctx) :
    Prog.wp (reqPack C raw n fek uuid)
      (fun frames s' => Alike s s' ∧ frames ≠ [] ∧ ∀ f ∈ frames, Carries raw f)
      (fun _ => Alike s) (fun _ => Alike s) s := by
  have hne : n ≠ 0 → (List.range n).map (packFrame C raw fek uuid) ≠ [] := by simp
  have hall : ∀ f ∈ (List.range n).map (packFrame C raw fek uuid), Carries raw f := by
    intro f hf
    obtain ⟨i, -, rfl⟩ := List.mem_map.1 hf
    exact ⟨rfl, rfl, rfl, rfl⟩
  unfold reqPack
  refine Prog.wp_bind.2 (wp_getCtx hctx ?_)
  refine Prog.wp_ite (fun _ => .refl s) fun hn => Prog.wp_ite (fun _ => .refl s) fun _ => ?_
  refine Prog.wp_bind.2 (wp_liftOracle (fun _ s₁ h₁ => ?_) (fun _ _ h => h) fun _ _ h => h)
  refine Prog.wp_ite (fun _ => h₁) fun _ => Prog.wp_ite (fun _ => ?_) fun _ => ⟨h₁, hne hn, hall⟩
  refine Prog.wp_bind.2 (wp_liftOracle (fun _ s₂ h₂ => ?_) (fun _ _ h => h₁.trans h)
    fun _ _ h => h₁.trans h)
  exact ⟨h₁.trans h₂, packMac_ne_nil (hne hn), carries_packMac hall⟩

/-- The frame gets past the checks before the MAC. -/
def Passes (raw : RawResp) (f : Frame) : Prop :=
  f.opResult % 64 = 0 ∧ f.msgType = raw.msgType ∧ ∀ idx ∈ raw.blkIdx, idx = f.address

theorem checkHeader_cases (raw : RawResp) (f : Frame) :
    Passes raw f ∧ checkHeader f raw = .ok () ∨ ¬Passes raw f ∧ ∃ e,
      checkHeader f raw = .error e := by
  have hany : (raw.blkIdx.any (· ≠ f.address)) = true ↔ ¬∀ idx ∈ raw.blkIdx, idx = f.address := by
    cases raw.blkIdx <;> simp
  unfold checkHeader Passes
  split_ifs with h₁ h₂ h₃ h₄
  · exact .inr ⟨fun h => by omega, _, rfl⟩
  · exact .inr ⟨fun h => h₂ h.1, _, rfl⟩
  · exact .inr ⟨fun h => h₃ h.2.1, _, rfl⟩
  · exact .inr ⟨fun h => hany.1 h₄ h.2.2, _, rfl⟩
  · exact .inl ⟨⟨not_not.1 h₂, not_not.1 h₃, not_not.1 fun h => h₄ (hany.2 h)⟩, rfl⟩

theorem wp_verifyMac {raw : RawResp} (hctx : s.ctx = some ctx)
    (hraw : raw.msgType ≠ .respAuthDataRead) :
    Prog.wp (verifyMac C resp raw 1 fek uuid)
      (fun _ s' => Alike s s' ∧ (∀ nonce ∈ raw.nonce, nonce = (resp 0).nonce)
        ∧ (resp 0).keyMac = C.hmac ctx.key [(resp 0).toBody])
      (fun _ => Alike s) (fun _ => Alike s) s := by
  have hany : (raw.nonce.any (· ≠ (resp 0).nonce)) = true ↔ ¬∀ nonce ∈ raw.nonce,
      nonce = (resp 0).nonce := by
    cases raw.nonce <;> simp
  unfold verifyMac
  refine Prog.wp_bind.2 (wp_getCtx hctx ?_)
  refine Prog.wp_ite (fun _ => .refl s) fun hnonce => Prog.wp_bind.2 ?_
  rw [if_neg hraw, if_neg (fun h => h rfl)]
  refine Prog.wp_bind.2 (wp_liftOracle (fun _ s₁ h₁ => ?_) (fun _ _ h => h) fun _ _ h => h)
  refine Prog.wp_pure.2 (Prog.wp_ite (fun _ => h₁) fun hmac => ?_)
  exact ⟨h₁, not_not.1 fun h => hnonce (hany.2 h), (not_not.1 hmac).symm⟩

theorem wp_unpack_counter {nonce : ByteVec 16} (hctx : s.ctx = some ctx) :
    Prog.wp (respUnpackVerify C resp ⟨.respWriteCounterValRead, none, some cnt, some nonce,
      none⟩ 1 none none)
      (fun r s' => Alike s s' ∧ ∀ out, r.1 = .ok out → r.2 = some (resp 0).writeCounter
        ∧ (resp 0).opResult % 64 = 0 ∧ (resp 0).msgType = .respWriteCounterValRead
          ∧ (resp 0).nonce = nonce
        ∧ (resp 0).keyMac = C.hmac ctx.key [(resp 0).toBody])
      (fun _ => Alike s) (fun _ => Alike s) s := by
  unfold respUnpackVerify
  refine Prog.wp_ite (fun h => absurd h one_ne_zero) fun _ => ?_
  rcases checkHeader_cases ⟨.respWriteCounterValRead, none, some cnt, some nonce,
    none⟩ (resp 0) with
    ⟨hpass, hok⟩ | ⟨-, e, herr⟩
  · rw [hok]
    refine Prog.wp_ite (fun h => MsgType.noConfusion h.1) fun _ =>
      Prog.wp_bind.2 (wp_getCtx hctx ?_)
    refine Prog.wp_bind.2 (Prog.wp_bind.2 (Prog.wp_attempt.2
      (Prog.wp_mono (wp_verifyMac hctx MsgType.noConfusion) ?_ ?_ fun _ _ h => h)))
    · rintro out s' ⟨hs, hnonce, hmac⟩
      exact ⟨hs, fun _ _ => ⟨rfl, hpass.1, hpass.2.1, (hnonce nonce rfl).symm, hmac⟩⟩
    · exact fun e s' hs => ⟨hs, nofun⟩
  · rw [herr]
    exact ⟨.refl s, nofun⟩

/-- The frame says that the block was written. -/
def Confirms (idx : ℕ) (f : Frame) : Prop :=
  f.opResult % 64 = 0 ∧ f.msgType = .respAuthDataWrite ∧ f.address = idx

/-- The context with the counter one up. -/
def Ctx.count (ctx : Ctx) : Ctx := { ctx with wrCnt := u32 (ctx.wrCnt + 1) }

/-- How the answer to a write is taken. -/
inductive UnpackedWrite (s : State (W × List Exchange)) (ctx : Ctx) (idx cnt : ℕ) (f : Frame) :
    Except TeeError (List UInt8) × Option ℕ → State (W × List Exchange) → Prop
  | refused {e s'} (h : ¬Confirms idx f) (hs : Alike s s') :
  UnpackedWrite s ctx idx cnt f (.error e, some cnt) s'
  | other {e s'} (h : Confirms idx f) (hne : f.writeCounter ≠ u32 (cnt + 1)) (hs : Alike s s') :
    UnpackedWrite s ctx idx cnt f (.error e, some f.writeCounter) s'
  | next {res s'} (h : Confirms idx f) (hnext : f.writeCounter = u32 (cnt + 1))
    (hs : Alike { s with ctx := some ctx.count } s') :
    UnpackedWrite s ctx idx cnt f (res, some f.writeCounter) s'

theorem wp_unpack_write {idx : ℕ} (hctx : s.ctx = some ctx) :
    Prog.wp (respUnpackVerify C resp ⟨.respAuthDataWrite, some idx, some cnt, none,
      none⟩ 1 none none)
      (UnpackedWrite s ctx idx cnt (resp 0)) (fun _ _ => False)
      (fun _ s' => Confirms idx (resp 0) ∧ (resp 0).writeCounter = u32 (cnt + 1)
        ∧ Alike { s with ctx := some ctx.count } s') s := by
  have hiff : Passes ⟨.respAuthDataWrite, some idx, some cnt, none, none⟩ (resp 0)
      ↔ Confirms idx (resp 0) := by
    simp [Passes, Confirms, eq_comm]
  unfold respUnpackVerify
  refine Prog.wp_ite (fun h => absurd h one_ne_zero) fun _ => ?_
  rcases checkHeader_cases ⟨.respAuthDataWrite, some idx, some cnt, none, none⟩ (resp 0) with
    ⟨hpass, hok⟩ | ⟨hpass, e, herr⟩
  · rw [hiff] at hpass
    rw [hok]
    refine Prog.wp_ite (fun h => ?_) fun h => Prog.wp_bind.2 (wp_getCtx hctx ?_)
    · exact .other hpass (by simpa using h) (.refl s)
    · have hnext : (resp 0).writeCounter = u32 (cnt + 1) := by simpa using h
      refine Prog.wp_bind.2 (Prog.wp_bind.2 (Prog.wp_attempt.2 (Prog.wp_mono
        (wp_verifyMac rfl MsgType.noConfusion) ?_ ?_ fun _ _ hs => ⟨hpass, hnext, hs⟩)))
      · exact fun out s' hs => .next hpass hnext hs.1
      · exact fun e s' hs => .next hpass hnext hs
  · rw [hiff] at hpass
    rw [herr]
    exact .refused hpass (.refl s)

end Frames

/-! ## The counter of the context -/

section Counter

variable {s s' : State (W × List Exchange)} {ctx : Ctx} {es : List Exchange} {e : Exchange}

variable (C) in
/-- The counter is the one obtained last, and every write had such a counter. -/
structure Kept (ctx : Ctx) (es : List Exchange) : Prop where
  derived : ctx.keyDerived = false → es = []
  verified : ctx.wrCntSynced = true → ctx.keyVerified = true
  follows : (∀ e ∈ es, Genuine C ctx.key e) → Follows C ctx.key es
  counter : ctx.wrCntSynced = true → (∀ e ∈ es, Genuine C ctx.key e) →
    obtained C ctx.key es = some ctx.wrCnt

variable (C) in
/-- The exchanges so far follow the counter. -/
def Sound (s : State (W × List Exchange)) : Prop :=
  match s.ctx with
  | none => s.world.2 = []
  | some ctx => Kept C ctx s.world.2

variable (C) in
/-- The counter of a write under way is that of the context. -/
def Tracks (cnt : ℕ) (s : State (W × List Exchange)) : Prop :=
  ∃ ctx, s.ctx = some ctx ∧ ctx.keyDerived = true ∧ Kept C ctx s.world.2
    ∧ ((∀ e ∈ s.world.2, Genuine C ctx.key e) → obtained C ctx.key s.world.2 = some ctx.wrCnt
    ∧ cnt = ctx.wrCnt)

theorem Sound.kept (h : Sound C s) (hctx : s.ctx = some ctx) : Kept C ctx s.world.2 := by
  unfold Sound at h
  rwa [hctx] at h

theorem Kept.sound (h : Kept C ctx es) (hctx : s.ctx = some ctx)
    (hes : s.world.2 = es) : Sound C s := by
  unfold Sound
  rwa [hctx, hes]

theorem Tracks.sound (h : Tracks C cnt s) : Sound C s := by
  obtain ⟨ctx, hctx, -, hkept, -⟩ := h
  exact hkept.sound hctx rfl

theorem Sound.alike (h : Sound C s) (hs : Alike s s') : Sound C s' := by
  unfold Sound at h ⊢
  rwa [hs.1, hs.2]

theorem Tracks.alike (h : Tracks C cnt s) (hs : Alike s s') : Tracks C cnt s' := by
  unfold Tracks at h ⊢
  rwa [hs.1, hs.2]

theorem Kept.push (h : Kept C ctx es) (hd : ctx.keyDerived = true) (hsync : ctx.wrCntSynced = false)
    (hreq : ∀ f ∈ e.frames, f.msgType ≠ .reqAuthDataWrite) : Kept C ctx (e :: es) where
  derived hd' := absurd hd (by simp [hd'])
  verified := h.verified
  follows hall := ⟨fun f hf hw => absurd hw (hreq f hf), h.follows fun e he => hall e (.tail _ he)⟩
  counter hs := absurd hs (by simp [hsync])

theorem Kept.set_wrCnt (h : Kept C ctx es) (hsync : ctx.wrCntSynced = false) (cnt : ℕ) :
    Kept C { ctx with wrCnt := cnt } es where
  derived := h.derived
  verified := h.verified
  follows := h.follows
  counter hs := absurd hs (by simp [hsync])

theorem authentic_counter {nonce : ByteVec 16} (hne : frames ≠ [])
    (hframes : ∀ f ∈ frames, Carries ⟨.reqWriteCounterValRead, none, none, none,
      some nonce, none⟩ f)
    (hres : (resp 0).opResult % 64 = 0) (htype : (resp 0).msgType = .respWriteCounterValRead)
    (hnonce : (resp 0).nonce = nonce) (hmac : (resp 0).keyMac = C.hmac key [(resp 0).toBody]) :
    authentic C key ⟨frames, some resp⟩ = some (resp 0).writeCounter := by
  obtain ⟨req, rest, rfl⟩ := List.exists_cons_of_ne_nil hne
  obtain ⟨hreq, -, -, hreqnonce⟩ := hframes req List.mem_cons_self
  have hanswers : answers req.toBody (resp 0).toBody = true := by
    rw [answers, hreq]
    simpa using ⟨htype, hnonce.trans hreqnonce.symm⟩
  exact if_pos ⟨hres, hanswers, hmac⟩

section Sync

theorem wp_sync (h : Kept C ctx s.world.2) (hctx : s.ctx = some ctx) (hd : ctx.keyDerived = true)
    (hsync : ctx.wrCntSynced = false) :
    Prog.wp (teeRpmbVerifyKeySyncCounter C (recorded N)) (fun _ s' => ∃ cnt, Tracks C cnt s')
      (fun _ => Sound C) (fun _ => Sound C) s := by
  have hsound : ∀ {s'}, Alike s s' → Sound C s' := fun hs => (h.sound hctx rfl).alike hs
  unfold teeRpmbVerifyKeySyncCounter
  refine Prog.wp_bind.2 (wp_liftOracle (fun _ s₁ h₁ => ?_) (fun _ _ h => hsound h)
    fun _ _ h => hsound h)
  refine Prog.wp_bind.2 (wp_liftOracle (fun nonce s₂ h₂ => ?_) (fun _ _ h => hsound (h₁.trans h))
    fun _ _ h => hsound (h₁.trans h))
  replace h₂ := h₁.trans h₂
  refine Prog.wp_bind.2 (Prog.wp_mono (wp_reqPack _ _ (h₂.1.trans hctx)) ?_
    (fun _ _ h => hsound (h₂.trans h)) fun _ _ h => hsound (h₂.trans h))
  rintro frames s₃ ⟨h₃, hne, hframes⟩
  replace h₃ := h₂.trans h₃
  have hreq : ∀ f ∈ frames, f.msgType ≠ .reqAuthDataWrite := fun f hf hw =>
    MsgType.noConfusion (hw.symm.trans (hframes f hf).1)
  have hctx₃ : s₃.ctx = some ctx := h₃.1.trans hctx
  refine Prog.wp_bind.2 (wp_invoke (fun w resp => ?_) fun w => ?_)
  · refine Prog.wp_bind.2 (wp_getCtx hctx₃ ?_)
    have hpushed : Kept C ctx (⟨frames, some resp⟩ :: s₃.world.2) := by
      rw [h₃.2]
      exact h.push hd hsync hreq
    refine Prog.wp_bind.2 (Prog.wp_mono (wp_unpack_counter hctx₃) ?_
      (fun _ _ h => hpushed.sound (h.1.trans hctx₃) h.2) fun _ _ h =>
      hpushed.sound (h.1.trans hctx₃) h.2)
    rintro ⟨res, wrCnt⟩ s₄ ⟨h₄, hok⟩
    have hworld : s₄.world.2 = ⟨frames, some resp⟩ :: s₃.world.2 := h₄.2
    refine Prog.wp_bind.2 (wp_getCtx (h₄.1.trans hctx₃) (Prog.wp_bind.2 ?_))
    cases res with
    | error e =>
      have hset : Sound C { s₄ with ctx := some { ctx with wrCnt := wrCnt.getD ctx.wrCnt } } :=
        (hpushed.set_wrCnt hsync _).sound rfl hworld
      exact hset
    | ok out =>
      obtain ⟨rfl, hres, htype, hnonce, hmac⟩ := hok out rfl
      have hobt : obtained C ctx.key s₄.world.2 = some (resp 0).writeCounter := by
        rw [hworld, obtained, authentic_counter hne hframes hres htype hnonce hmac, Option.some_or]
      refine ⟨(resp 0).writeCounter, _, rfl, hd, ⟨?_, fun _ => rfl, ?_, fun _ _ => hobt⟩,
        fun _ => ⟨hobt, rfl⟩⟩
      · exact fun hd' => absurd hd (by simp [show ctx.keyDerived = false from hd'])
      · show (∀ e ∈ s₄.world.2, Genuine C ctx.key e) → Follows C ctx.key s₄.world.2
        rw [hworld]
        exact hpushed.follows
  · rw [h₃.2]
    exact (h.push hd hsync hreq).sound hctx₃ rfl

theorem wp_getDevInfo :
    Prog.wp (teeRpmbGetDevInfo (recorded N)) (fun _ => Alike s) (fun _ => Alike s)
      (fun _ => Alike s) s := by
  unfold teeRpmbGetDevInfo
  refine Prog.wp_bind.2 (wp_liftOracle (fun _ s₁ h₁ => ?_) (fun _ _ h => h) fun _ _ h => h)
  refine Prog.wp_bind.2 (Prog.wp_get.2 (Prog.wp_bind.2 (Prog.wp_modify.2 ?_)))
  split
  · exact h₁
  · exact Prog.wp_ite (fun _ => h₁) fun _ => h₁

theorem wp_syncDevInfo {cfg : Config} (h : Kept C ctx s.world.2) (hctx : s.ctx = some ctx) :
    Prog.wp (syncDevInfo (recorded N) cfg ctx) (fun ctx' s' => s'.ctx = some ctx'
      ∧ Kept C ctx' s'.world.2)
      (fun _ => Sound C) (fun _ => Sound C) s := by
  have hsound : ∀ {s'}, Alike s s' → Sound C s' := fun hs => (h.sound hctx rfl).alike hs
  unfold syncDevInfo
  refine Prog.wp_bind.2 (Prog.wp_mono wp_getDevInfo (fun info s₁ h₁ => ?_) (fun _ _ h => hsound h)
    fun _ _ h => hsound h)
  refine Prog.wp_ite (fun _ => hsound h₁) fun _ =>
    Prog.wp_ite (fun _ => hsound h₁) fun _ => ⟨rfl, ?_⟩
  show Kept C _ s₁.world.2
  rw [h₁.2]
  exact ⟨h.derived, h.verified, h.follows, h.counter⟩

theorem Kept.derive (h : Kept C ctx es) (k : Key) (hd : ctx.keyDerived = false) :
    Kept C { ctx with key := k, keyDerived := true } es := by
  obtain rfl := h.derived hd
  exact ⟨nofun, h.verified, fun _ => trivial, fun hs _ => absurd (h.counter hs nofun) nofun⟩

theorem wp_init {cfg : Config} (h : Sound C s) :
    Prog.wp (teeRpmbInit C (recorded N) cfg) (fun _ s' => ∃ cnt, Tracks C cnt s') (fun _ => Sound C)
      (fun _ => Sound C) s := by
  unfold teeRpmbInit
  refine Prog.wp_bind.2 (Prog.wp_get.2 (Prog.wp_ite (fun _ => h) fun _ => Prog.wp_bind.2 ?_))
  -- there is a context
  refine Prog.wp_mono (Q := fun ctx s' => s'.ctx = some ctx ∧ Kept C ctx s'.world.2)
    (E := fun _ => Sound C) (H := fun _ => Sound C) ?_ ?_ (fun _ _ h => h) fun _ _ h => h
  · split
    · rename_i ctx hctx
      exact ⟨hctx, h.kept hctx⟩
    · rename_i hctx
      refine Prog.wp_bind.2 (wp_liftOracle (fun _ s₁ h₁ => ⟨rfl, ?_⟩) (fun _ _ hs => h.alike hs)
        fun _ _ hs => h.alike hs)
      have hnil : s₁.world.2 = [] := by
        unfold Sound at h
        rw [hctx] at h
        exact h₁.2.trans h
      show Kept C _ s₁.world.2
      rw [hnil]
      exact ⟨fun _ => rfl, nofun, fun _ => trivial, nofun⟩
  rintro ctx s₁ ⟨hctx₁, h₁⟩
  refine Prog.wp_bind.2 (Prog.wp_mono (Q := fun ctx s' => s'.ctx = some ctx ∧ Kept C ctx s'.world.2)
    (E := fun _ => Sound C) (H := fun _ => Sound C)
    (Prog.wp_ite (fun _ => ⟨hctx₁, h₁⟩) fun _ => wp_syncDevInfo h₁ hctx₁) ?_ (fun _ _ h => h)
    fun _ _ h => h)
  rintro ctx s₂ ⟨hctx₂, h₂⟩
  refine Prog.wp_bind.2 (Prog.wp_mono (Q := fun _ s' => ∃ ctx', s'.ctx = some ctx'
    ∧ Kept C ctx' s'.world.2
    ∧ ctx'.keyDerived = true ∧ ctx'.wrCntSynced
    = ctx.wrCntSynced) (E := fun _ => Sound C) (H := fun _ => Sound C) ?_ ?_ (fun _ _ h => h)
    fun _ _ h => h)
  · rw [Prog.wp_when]
    cases hd : ctx.keyDerived with
    | false => exact ⟨_, rfl, h₂.derive _ hd, rfl, rfl⟩
    | true => exact ⟨ctx, hctx₂, h₂, hd, rfl⟩
  rintro - s₃ ⟨ctx', hctx₃, h₃, hd, hsync⟩
  refine Prog.wp_ite (fun hout => ?_) fun hin => ?_
  · have hunsynced : ctx'.wrCntSynced = false := by
      rw [hsync]
      cases hs : ctx.wrCntSynced with
      | false => rfl
      | true => simp [hs, h₂.verified hs] at hout
    refine Prog.wp_bind.2 (Prog.wp_attempt.2 (Prog.wp_mono (wp_sync h₃ hctx₃ hd hunsynced)
      (fun _ _ h => h) (fun _ _ h => h) fun _ _ h => h))
  · have hsynced : ctx'.wrCntSynced = true := by
      rw [hsync]
      cases hs : ctx.wrCntSynced with
      | false => simp [hs] at hin
      | true => rfl
    exact ⟨ctx'.wrCnt, ctx', hctx₃, hd, h₃, fun hall => ⟨h₃.counter hsynced hall, rfl⟩⟩

end Sync

section Write

variable {idx cnt cnt' : ℕ} {frames : List Frame} {raw : RawReq}

theorem Kept.push_write (h : Kept C ctx es) (ctx' : Ctx) (hkey : ctx'.key = ctx.key)
    (hd : ctx'.keyDerived = true) (hverified : ctx'.wrCntSynced = true → ctx'.keyVerified = true)
    (hcnt : (∀ e ∈ es, Genuine C ctx.key e) → obtained C ctx.key es = some cnt)
    (hframes : ∀ f ∈ e.frames, f.writeCounter = cnt)
    (hnew : (∀ e ∈ es, Genuine C ctx.key e) → Genuine C ctx.key e →
      obtained C ctx.key (e :: es) = some ctx'.wrCnt ∧ cnt' = ctx'.wrCnt)
    (hctx : s.ctx = some ctx') (hes : s.world.2 = e :: es) : Tracks C cnt' s := by
  have hold : (∀ x ∈ e :: es, Genuine C ctx.key x) → ∀ x ∈ es, Genuine C ctx.key x :=
    fun hall x hx => hall x (.tail _ hx)
  have hboth : (∀ x ∈ e :: es, Genuine C ctx.key x) →
      obtained C ctx.key (e :: es) = some ctx'.wrCnt ∧ cnt' = ctx'.wrCnt :=
    fun hall => hnew (hold hall) (hall e List.mem_cons_self)
  have hfollows : (∀ x ∈ e :: es, Genuine C ctx.key x) → Follows C ctx.key (e :: es) := fun hall =>
    ⟨fun f hf _ => by rw [hcnt (hold hall), hframes f hf], h.follows (hold hall)⟩
  rw [← hkey] at hboth hfollows
  refine ⟨ctx', hctx, hd, ?_, ?_⟩
  · rw [hes]
    exact ⟨fun hd' => absurd hd (by simp [hd']), hverified, hfollows, fun _ hall => (hboth hall).1⟩
  · rw [hes]
    exact hboth

theorem obtained_cons_none (h : authentic C key e = none) :
    obtained C key (e :: es) = obtained C key es := by
  rw [obtained, h, Option.none_or]

theorem authentic_refused (hne : frames ≠ []) (hframes : ∀ f ∈ frames, Carries raw f)
    (hraw : raw.msgType = .reqAuthDataWrite) (hidx : raw.blkIdx = some idx)
    (h : ¬Confirms idx (resp 0)) :
    authentic C key ⟨frames, some resp⟩ = none := by
  obtain ⟨req, rest, rfl⟩ := List.exists_cons_of_ne_nil hne
  obtain ⟨htype, -, haddr, -⟩ := hframes req List.mem_cons_self
  refine if_neg fun hauth => h ⟨hauth.1, ?_⟩
  have hanswers := hauth.2.1
  rw [answers, htype, hraw] at hanswers
  obtain ⟨hresp, hat, -⟩ := of_decide_eq_true hanswers
  exact ⟨hresp, hat.trans (haddr.trans (by rw [hidx]; rfl))⟩

theorem Genuine.confirmed (hgen : Genuine C key ⟨frames, some resp⟩) (hne : frames ≠ [])
    (hframes : ∀ f ∈ frames, Carries raw f) (hraw : raw.msgType = .reqAuthDataWrite)
    (hidx : raw.blkIdx = some idx) (hcnt : raw.writeCounter = some cnt)
    (h : Confirms idx (resp 0)) :
    (resp 0).writeCounter = u32 (cnt + 1)
    ∧ authentic C key ⟨frames, some resp⟩ = some (resp 0).writeCounter := by
  obtain ⟨req, rest, rfl⟩ := List.exists_cons_of_ne_nil hne
  obtain ⟨htype, hcounter, haddr, -⟩ := hframes req List.mem_cons_self
  have hat : (resp 0).address = req.address := h.2.2.trans (haddr.trans (by rw [hidx]; rfl)).symm
  obtain ⟨hnext, hmac⟩ := hgen req rfl resp rfl (htype.trans hraw) h.1 h.2.1 hat
  have hanswers : answers req.toBody (resp 0).toBody = true := by
    rw [answers, htype, hraw]
    simpa using ⟨h.2.1, hat, hnext⟩
  refine ⟨?_, if_pos ⟨h.1, hanswers, hmac⟩⟩
  rw [hnext, hcounter, hcnt]
  rfl

theorem wp_unsync {b : Bool} (h : Tracks C cnt s) :
    Prog.wp (Prog.when b unsync) (fun _ => Tracks C cnt) (fun _ => Tracks C cnt)
      (fun _ => Tracks C cnt) s := by
  rw [Prog.wp_when]
  split
  · obtain ⟨ctx, hctx, hd, hkept, hcnt⟩ := h
    refine Prog.wp_bind.2 (wp_getCtx hctx ⟨_, rfl, hd, ⟨hkept.derived, nofun, hkept.follows, nofun⟩,
      hcnt⟩)
  · exact h

theorem wp_writeReqLoop {data : List UInt8} {fek : Option Fek} {uuid : Option Uuid} :
    ∀ (left : ℕ) {cnt : ℕ} {s : State (W × List Exchange)}, Tracks C cnt s →
      Prog.wp (writeReqLoop C (recorded N) idx data n fek uuid left cnt)
        (fun _ s' => ∃ cnt', Tracks C cnt' s')
        (fun _ => Sound C) (fun _ => Sound C) s
  | 0, cnt, s, h => h.sound
  | left + 1, cnt, s, h => by
    have hretry : ∀ {cnt' s'}, Tracks C cnt' s' →
        Prog.wp (do
            Prog.when (left ≠ 0) unsync
            writeReqLoop C (recorded N) idx data n fek uuid left cnt')
          (fun _ s' => ∃ cnt', Tracks C cnt' s') (fun _ => Sound C) (fun _ => Sound C) s' := by
      intro _ _ h'
      exact Prog.wp_bind.2 (Prog.wp_mono (wp_unsync h') (fun _ _ h₁ => wp_writeReqLoop left h₁)
        (fun _ _ h₁ => h₁.sound) fun _ _ h₁ => h₁.sound)
    obtain ⟨ctx, hctx, hd, hkept, hcnt⟩ := id h
    have hobt : (∀ e ∈ s.world.2, Genuine C ctx.key e) →
        obtained C ctx.key s.world.2 = some cnt := fun hall => by
      rw [(hcnt hall).1, (hcnt hall).2]
    unfold writeReqLoop
    refine Prog.wp_bind.2
      (Prog.wp_attempt.2 (Prog.wp_mono (wp_reqPack _ n hctx) ?_ (fun e s₁ h₁ => ?_)
      fun _ _ h₁ => h.sound.alike h₁))
    · rintro frames s₁ ⟨h₁, hne, hframes⟩
      have hcounters : ∀ f ∈ frames, f.writeCounter = cnt := fun f hf => (hframes f hf).2.1
      have hpushed : ∀ resp, (⟨frames, resp⟩ : Exchange) :: s₁.world.2
          = ⟨frames, resp⟩ :: s.world.2 :=
        fun resp => congrArg _ h₁.2
      refine Prog.wp_bind.2 (Prog.wp_attempt.2 (wp_invoke (fun w resp => Prog.wp_bind.2 ?_)
        fun w => hretry ?_))
      · have hcounted : ∀ {s₂}, Confirms idx (resp 0) → (resp 0).writeCounter = u32 (cnt + 1) →
            Alike { s₁ with ctx := some ctx.count, world := (w, ⟨frames, some resp⟩ :: s₁.world.2) }
            s₂ →
            Tracks C (resp 0).writeCounter s₂ := by
          intro s₂ hyes hnext hs
          refine hkept.push_write (e := ⟨frames, some resp⟩) ctx.count rfl hd hkept.verified
            hobt hcounters (fun hall hgen => ?_) hs.1 (hs.2.trans (hpushed _))
          have hauth := (hgen.confirmed hne hframes rfl rfl rfl hyes).2
          have hcount : (resp 0).writeCounter = ctx.count.wrCnt := by
            rw [hnext, (hcnt hall).2]
            rfl
          exact ⟨by rw [obtained, hauth, Option.some_or, hcount], hcount⟩
        refine Prog.wp_mono (wp_unpack_write (h₁.1.trans hctx)) (fun r s₂ hr => ?_)
          (fun _ _ h => h.elim) fun _ _ hs => (hcounted hs.1 hs.2.1 hs.2.2).sound
        rcases hr with ⟨hno, hs⟩ | ⟨hyes, hother, hs⟩ | ⟨hyes, hnext, hs⟩
        · refine hretry (hkept.push_write (e := ⟨frames, some resp⟩) ctx rfl hd hkept.verified
            hobt hcounters (fun hall _ => ?_) (hs.1.trans (h₁.1.trans hctx))
            (hs.2.trans (hpushed _)))
          rw [obtained_cons_none (authentic_refused hne hframes rfl rfl hno)]
          exact hcnt hall
        · -- the counter is set, but no genuine response is like this
          refine hretry (hkept.push_write (e := ⟨frames, some resp⟩) ctx rfl hd hkept.verified
            hobt hcounters (fun _ hgen => ?_) (hs.1.trans (h₁.1.trans hctx))
            (hs.2.trans (hpushed _)))
          exact absurd (hgen.confirmed hne hframes rfl rfl rfl hyes).1 hother
        · rename_i res
          cases res with
          | error e => exact hretry (hcounted hyes hnext hs)
          | ok out => exact ⟨_, hcounted hyes hnext hs⟩
      · refine hkept.push_write (e := ⟨frames, none⟩) ctx rfl hd hkept.verified hobt hcounters
          (fun hall _ => ?_) (h₁.1.trans hctx) (hpushed _)
        have hnone : authentic C ctx.key ⟨frames, none⟩ = none := by
          unfold authentic
          cases frames.head? <;> rfl
        rw [obtained_cons_none hnone]
        exact hcnt hall
    · exact Prog.wp_ite (fun _ => h.sound.alike h₁) fun _ => wp_writeReqLoop left (h.alike h₁)

variable {data : List UInt8} {fek : Option Fek} {uuid : Option Uuid} {cfg : Config}

theorem wp_writeReq {size : ℕ} (h : Tracks C cnt s) :
    Prog.wp (writeReq C (recorded N) size idx data n fek uuid)
      (fun _ s' => ∃ cnt', Tracks C cnt' s')
      (fun _ => Sound C) (fun _ => Sound C) s := by
  obtain ⟨ctx, hctx, hd, hkept, hcnt⟩ := id h
  unfold writeReq
  refine Prog.wp_bind.2 (wp_getCtx hctx (Prog.wp_bind.2 ?_))
  unfold Prog.assert
  refine Prog.wp_ite (fun _ => ?_) fun _ => h.sound
  exact wp_writeReqLoop _ ⟨ctx, hctx, hd, hkept, fun hall => ⟨(hcnt hall).1, rfl⟩⟩

theorem wp_writeBlkLoop {rel blkcnt nbrWrites size : ℕ} :
    ∀ (left i idx : ℕ) {s : State (W × List Exchange)}, (∃ cnt, Tracks C cnt s) →
      Prog.wp (writeBlkLoop C (recorded N) rel blkcnt nbrWrites size data fek uuid left i idx)
        (fun _ => Sound C) (fun _ => Sound C) (fun _ => Sound C) s
  | 0, _, _, _, ⟨_, h⟩ => h.sound
  | left + 1, i, idx, _, ⟨_, h⟩ =>
    Prog.wp_bind.2 (Prog.wp_mono (wp_writeReq h) (fun _ _ h₁ => wp_writeBlkLoop left _ _ h₁)
      (fun _ _ h₁ => h₁) fun _ _ h₁ => h₁)

theorem preserves_writeBlk :
    Prog.Preserves (Sound C) (teeRpmbWriteBlk C (recorded N) cfg idx data n fek uuid) := by
  intro s h
  unfold teeRpmbWriteBlk
  refine Prog.wp_ite (fun _ => h) fun _ => Prog.wp_bind.2 ?_
  refine Prog.wp_mono (wp_init h) (fun _ s₁ h₁ => ?_) (fun _ _ h₁ => h₁) fun _ _ h₁ => h₁
  obtain ⟨cnt, ctx, hctx, hrest⟩ := h₁
  have htracks : Tracks C cnt s₁ := ⟨ctx, hctx, hrest⟩
  refine Prog.wp_bind.2 (wp_getCtx hctx (Prog.wp_bind.2 (wp_liftOracle (fun _ s₂ h₂ => ?_)
    (fun _ _ h₂ => htracks.sound.alike h₂) fun _ _ h₂ => htracks.sound.alike h₂)))
  exact wp_writeBlkLoop _ _ _ ⟨cnt, htracks.alike h₂⟩

theorem preserves_call (c : Call) : Prog.Preserves (Sound C) (c.run C (recorded N) cfg) := by
  cases c with
  | init =>
    exact fun s h => Prog.wp_mono (wp_init h) (fun _ _ ⟨_, h₁⟩ => h₁.sound) (fun _ _ h => h)
      fun _ _ h => h
  | writeBlk => exact preserves_writeBlk

theorem preserves_runCalls : ∀ calls, Prog.Preserves (Sound C) (runCalls C (recorded N) cfg calls)
  | [] => Prog.preserves_pure ()
  | c :: cs =>
    Prog.preserves_bind (Prog.preserves_attempt (preserves_call c)) fun _ => preserves_runCalls cs

end Write

end Counter

/-- In every run whose responses to writes are genuine, each write request is signed for the counter
last obtained from a response with a right MAC. -/
theorem write_requests_follow (N : World W) (cfg : Config) (calls : List Call) (o : Oracle) (w : W)
    {ctx : Ctx} (hctx : (runCalls C (recorded N) cfg calls (boot o w)).2.ctx = some ctx)
    (hgen : ∀ e ∈ (runCalls C (recorded N) cfg calls (boot o w)).2.world.2, Genuine C ctx.key e) :
    Follows C ctx.key (runCalls C (recorded N) cfg calls (boot o w)).2.world.2 := by
  have hsound : Sound C (runCalls C (recorded N) cfg calls (boot o w)).2 :=
    Prog.state_of_wp (preserves_runCalls calls _ rfl)
  exact (hsound.kept hctx).follows hgen

theorem one_lt_byte : 1 < 256 := by decide

def fresh : Device :=
  ⟨ByteVec.zero _, ByteVec.zero _, ⟨1, one_lt_byte⟩, ⟨1, one_lt_byte⟩, 2, 5,
    fun _ => ByteVec.zero _, []⟩

def freshCtx (wrCnt : ℕ) (wrCntSynced : Bool) : Ctx :=
  ⟨ByteVec.zero _, ByteVec.zero _, wrCnt, 511, 2, wrCntSynced, true, true, true⟩

/-- The state after one block was written. -/
def afterWrite (N : World Device) : State (Device × List Exchange) :=
  (runCalls Crypto.plain (recorded N) ⟨true⟩ [.writeBlk 0 [1] 1 none none] (boot ⟨[], []⟩ fresh)).2

theorem afterWrite_ctx : (afterWrite (faithful Crypto.plain)).ctx = some (freshCtx 6 true) := by
  decide +kernel

theorem afterWrite_genuine :
    ∀ e ∈ (afterWrite (faithful Crypto.plain)).world.2,
      Genuine Crypto.plain (freshCtx 6 true).key e := by
  decide +kernel

theorem write_requests_follow_fresh :
    Follows Crypto.plain (freshCtx 6 true).key (afterWrite (faithful Crypto.plain)).world.2 := by
  have hctx := afterWrite_ctx
  have hgen := afterWrite_genuine
  unfold afterWrite at hctx hgen ⊢
  -- with a world that is a variable nothing is evaluated
  generalize faithful Crypto.plain = N at *
  exact write_requests_follow _ _ _ _ _ hctx hgen

/-- A normal world that confirms writes itself, with a counter of its own and a MAC that is
wrong. -/
def forging : World Device where
  getDevInfo := (faithful Crypto.plain).getDevInfo
  exchange n frames d :=
    match frames.head? with
    | some req =>
      if req.msgType = .reqAuthDataWrite then
        (some fun _ => ⟨⟨ByteVec.zero _, ByteVec.zero _, 77, req.address, 0, 0, .respAuthDataWrite⟩,
          List.Vector.replicate _ 1⟩, d)
      else (faithful Crypto.plain).exchange n frames d
    | none => (none, d)

/-- The second attempt of a write is signed for the counter of the response to the first. -/
theorem write_signed_for_unverified : (afterWrite forging).ctx = some (freshCtx 5 false)
      ∧ ¬Follows Crypto.plain (freshCtx 5 false).key (afterWrite forging).world.2 := by
  decide +kernel

end Optee.Rpmb
