import Optee.Adi.Twi
import Mathlib.Data.Nat.Count
import Mathlib.Tactic.Common

/-!
# When a transfer is reported to have succeeded

How far a transfer is follows from the polls alone: how often a byte was asked for and how often
one was delivered (`Wait.round`). A byte that is delivered before the one in its place was sent
is sent in its stead. A transfer counts as done once no data byte is left, however the loop was
left, so that the report is right if and only if the polls are fair (`honest_iff`).
-/

namespace Optee.Twi

/-! ## What the polls ask for -/

/-- How often a byte was asked for in the first `n` rounds. -/
def asked (polls : ℕ → Poll) (n : ℕ) : ℕ := Nat.count (fun k => (polls k).txserv = true) n

/-- A byte is delivered in round `n`; a read that is asked for a byte stops before it takes one. -/
def Delivers (flags : I2cM) (polls : ℕ → Poll) (n : ℕ) : Prop :=
  (polls n).rxserv = true ∧ ¬((polls n).txserv = true ∧ flags = .read)

instance (flags : I2cM) (polls : ℕ → Poll) : DecidablePred (Delivers flags polls) :=
  fun _ => inferInstanceAs (Decidable (_ ∧ ¬(_ ∧ _)))

/-- How often a byte was delivered in the first `n` rounds. -/
def given (flags : I2cM) (polls : ℕ → Poll) (n : ℕ) : ℕ := Nat.count (Delivers flags polls) n

/-- What `wait_for_completion` is to do: the address bytes and those of the buffer are to be sent,
of which the first was handed over, and bytes are to be received. -/
structure Wait where
  flags : I2cM
  addr : List UInt8
  data : ℕ → UInt8
  writeLen : ℕ
  readLen : ℕ

namespace Wait

/-- A read is asked for nothing and a write is delivered nothing. -/
structure Sound (w : Wait) : Prop where
  addr : w.flags = .read → w.addr = []
  writeLen : w.flags = .read → w.writeLen = 0
  readLen : w.flags = .write → w.readLen = 0

variable (w : Wait) (polls : ℕ → Poll) (n : ℕ)

/-- The bytes that are left to be sent when the loop begins. -/
def total : ℕ := w.addr.length + w.writeLen - 1

/-- The bytes of the buffer that were sent once `a` bytes were asked for. -/
def written (a : ℕ) : ℕ := w.writeLen - (w.total - a)

/-- The whole message. -/
def message : List UInt8 := w.addr ++ (List.range w.writeLen).map w.data

/-- The byte that is delivered in round `n` has its place before the bytes that were sent, or behind
the last, or is the one there. -/
def Harmless : Prop :=
  Delivers w.flags polls n → given w.flags polls n < w.readLen →
    w.written (asked polls (n + 1)) ≤ given w.flags polls n → given w.flags polls n < w.writeLen →
    (polls n).rxdata = w.data (given w.flags polls n)

/-- A byte is asked for by a read or delivered to a write. -/
def Unexpected : Prop :=
  (polls n).txserv ∧ w.flags = .read ∨ (polls n).rxserv ∧ w.flags = .write

/-- The loop is left in round `n` as it should be. -/
def Completes : Prop :=
  ¬w.Unexpected polls n ∧ (polls n).merr = false ∧ (polls n).mcomp
    ∧ (w.flags = .readCombo → w.readLen ≤ given w.flags polls (n + 1))

/-- The round `n` leaves the loop. -/
def Leaves : Prop :=
  w.Unexpected polls n ∨ (polls n).merr ∨ w.Completes polls n ∨ (polls n).elapsed

/-- Every byte was asked for by the end of round `n`. -/
def Sent : Prop := w.total ≤ asked polls (n + 1)

/-- Every byte was delivered by the end of round `n`. -/
def Got : Prop := w.readLen ≤ given w.flags polls (n + 1)

/-- The bytes to be sent after `n` rounds: those that came early are in their places. -/
def contents : ℕ → ℕ → UInt8
  | 0 => w.data
  | n + 1 =>
    if Delivers w.flags polls n ∧ given w.flags polls n < w.readLen
        ∧ w.written (asked polls (n + 1)) ≤ given w.flags polls n
    then Function.update (contents n) (given w.flags polls n) (polls n).rxdata
    else contents n

/-- How far the transfer is when `a` bytes were asked for and `g` delivered, and `v` are the bytes
to be sent. -/
structure Progress (a g : ℕ) (v : ℕ → UInt8) (x : Xfer) : Prop where
  left : x.addrBuf.length + x.writeDataLen = w.total - a
  offs : x.writeOffs = w.written a
  write : x.writeOffs + x.writeDataLen = w.writeLen
  got : x.readOffs = min w.readLen g
  read : x.readDataLen = w.readLen - g
  sent : x.sent ++ x.addrBuf = w.addr ++ (List.range x.writeOffs).map v
  unsent : ∀ i, x.writeOffs ≤ i → x.buf i = v i

variable {w polls n} {x y : Xfer} {a g : ℕ} {v : ℕ → UInt8} {o : Option Ending}

/-! ## Bytes that come early -/

theorem contents_of_given_le {j : ℕ} (h : given w.flags polls n ≤ j) :
    w.contents polls n j = w.data j := by
  induction n with
  | zero => rfl
  | succ n ih =>
    have hle : given w.flags polls n ≤ given w.flags polls (n + 1) :=
      Nat.count_monotone _ n.le_succ
    rw [contents]
    split_ifs with htake
    · have hlt : given w.flags polls n < given w.flags polls (n + 1) := by
        simp [given, Nat.count_succ, htake.1]
      rw [Function.update_of_ne (by omega), ih (by omega)]
    · exact ih (by omega)

/-- What is sent is what was to be sent if and only if no byte that came early did harm. -/
theorem contents_eq_iff :
    (∀ j < w.writeLen, w.contents polls n j = w.data j) ↔ ∀ m < n, w.Harmless polls m := by
  induction n with
  | zero => simp [contents]
  | succ n ih =>
    rw [Nat.forall_lt_succ_right, ← ih, contents]
    by_cases htake : Delivers w.flags polls n ∧ given w.flags polls n < w.readLen
        ∧ w.written (asked polls (n + 1)) ≤ given w.flags polls n
    swap
    · rw [if_neg htake]
      refine (and_iff_left ?_).symm
      exact fun hdel hlt hle _ => absurd ⟨hdel, hlt, hle⟩ htake
    rw [if_pos htake]
    obtain ⟨hdel, hlt, hle⟩ := htake
    constructor
    · intro h
      refine ⟨fun j hj => ?_, fun _ _ _ hw => ?_⟩
      · by_cases hjg : j = given w.flags polls n
        · exact contents_of_given_le hjg.ge
        · rw [← h j hj, Function.update_of_ne hjg]
      · rw [← h _ hw, Function.update_self]
    · rintro ⟨h, hharm⟩ j hj
      by_cases hjg : j = given w.flags polls n
      · subst hjg
        rw [Function.update_self, hharm hdel hlt hle hj]
      · rw [Function.update_of_ne hjg, h j hj]

/-! ## The rounds of the loop -/

theorem progress_start (w : Wait) : w.Progress 0 0 w.data
    (Xfer.push ⟨[], w.addr, w.data, 0, w.writeLen, 0, w.readLen⟩) := by
  cases haddr : w.addr with
  | cons b rest =>
    constructor <;> simp [Xfer.push, total, written, haddr]
  | nil =>
    by_cases hlen : w.writeLen = 0
    · constructor <;> simp [Xfer.push, total, written, haddr, hlen]
    · constructor <;> simp [Xfer.push, total, written, haddr, hlen] <;> omega

namespace Progress

theorem push (h : w.Progress a g v x) : w.Progress (a + 1) g v x.push := by
  obtain ⟨hleft, hoffs, hwrite, hgot, hread, hsent, hunsent⟩ := h
  rw [written] at hoffs
  rw [Xfer.push]
  split
  · rename_i b rest haddr
    rw [haddr] at hleft hsent
    refine ⟨?_, ?_, hwrite, hgot, hread, by simpa using hsent, hunsent⟩
    · simp only [List.length_cons] at hleft ⊢
      omega
    · simp only [List.length_cons, written] at hleft ⊢
      omega
  · rename_i haddr
    rw [haddr] at hleft hsent
    simp only [List.length_nil, Nat.zero_add, List.append_nil] at hleft hsent
    split_ifs with hlen
    · refine ⟨?_, ?_, hwrite, hgot, hread, by simpa [haddr] using hsent, hunsent⟩
      · simp only [haddr, List.length_nil]
        omega
      · rw [written]
        omega
    · refine ⟨?_, ?_, ?_, hgot, hread, ?_, fun i hi => hunsent i (Nat.le_of_lt hi)⟩
      · simp only [haddr, List.length_nil]
        omega
      · simp only [written]
        omega
      · dsimp only
        omega
      · simp only [haddr, List.append_nil, List.range_succ, List.map_append, List.map_singleton]
        rw [hsent, hunsent _ le_rfl, List.append_assoc]

theorem receive (h : w.Progress a g v x) (b : UInt8) : w.Progress a (g + 1)
    (if g < w.readLen ∧ w.written a ≤ g then Function.update v g b else v) (x.receive b) := by
  obtain ⟨hleft, hoffs, hwrite, hgot, hread, hsent, hunsent⟩ := h
  rw [Xfer.receive]
  split_ifs with htake hlen hlen
  · omega
  · obtain rfl : x.readOffs = g := by omega
    refine ⟨hleft, hoffs, hwrite, ?_, ?_, ?_, fun i hi => ?_⟩
    · dsimp only
      omega
    · dsimp only
      omega
    · dsimp only
      rw [hsent, List.map_congr_left fun i hi => ?_]
      have := List.mem_range.1 hi
      rw [Function.update_of_ne (by omega)]
    · dsimp only
      by_cases hig : i = x.readOffs
      · rw [hig, Function.update_self, Function.update_self]
      · rw [Function.update_of_ne hig, Function.update_of_ne hig, hunsent i hi]
  · exact ⟨hleft, hoffs, hwrite, by omega, by omega, hsent, hunsent⟩
  · refine ⟨hleft, hoffs, hwrite, ?_, ?_, hsent, fun i hi => ?_⟩
    · dsimp only
      omega
    · dsimp only
      omega
    · dsimp only at hi ⊢
      rw [Function.update_of_ne (by omega), hunsent i hi]

end Progress

/-- What is known after the first `n` rounds. -/
def After (w : Wait) (polls : ℕ → Poll) (n : ℕ) (x : Xfer) : Prop :=
  w.Progress (asked polls n) (given w.flags polls n) (w.contents polls n) x

/-- A round keeps what is known, and is left as the poll says. -/
theorem round (hw : w.Sound) (h : w.After polls n x)
    (hround : waitRound w.flags x (polls n) = (y, o)) : w.After polls (n + 1) y
      ∧ (o.isSome ↔ w.Leaves polls n) ∧ (o = some .complete ↔ w.Completes polls n) := by
  have hasked : asked polls (n + 1) = asked polls n + if (polls n).txserv then 1 else 0 := by
    rw [asked, Nat.count_succ, ← asked]
  have hgiven : given w.flags polls (n + 1)
      = given w.flags polls n + if Delivers w.flags polls n then 1 else 0 := by
    rw [given, Nat.count_succ, ← given]
  rw [waitRound] at hround
  dsimp only at hround
  by_cases hread : (polls n).txserv = true ∧ w.flags = .read
  · -- a read has nothing to send, and takes nothing in this round
    rw [if_pos hread] at hround
    cases hround
    have hu : w.Unexpected polls n := .inl hread
    refine ⟨?_, by simp [Leaves, hu], by simp [Completes, hu]⟩
    have hdel : ¬Delivers w.flags polls n := fun hdel => hdel.2 hread
    have htotal : w.total = 0 := by simp [total, hw.addr hread.2, hw.writeLen hread.2]
    have hoffs := h.offs
    simp only [written, htotal] at hoffs
    rw [After, hgiven, if_neg hdel, contents, if_neg fun htake => hdel htake.1]
    refine ⟨h.left.trans (by omega), ?_, h.write, h.got, h.read, h.sent, h.unsent⟩
    rw [written, htotal, hoffs]
    omega
  rw [if_neg hread] at hround
  have hx : w.Progress (asked polls (n + 1)) (given w.flags polls n) (w.contents polls n)
      (if (polls n).txserv then x.push else x) := by
    rw [hasked]
    split_ifs
    · exact h.push
    · exact h
  generalize (if (polls n).txserv = true then x.push else x) = x₁ at hround hx
  by_cases hwrite : (polls n).rxserv = true ∧ w.flags = .write
  · -- a write has nothing to receive
    rw [if_pos hwrite] at hround
    cases hround
    have hu : w.Unexpected polls n := .inr hwrite
    have hlen := hw.readLen hwrite.2
    refine ⟨?_, by simp [Leaves, hu], by simp [Completes, hu]⟩
    rw [After, contents, if_neg (by simp [hlen])]
    refine ⟨hx.left, hx.offs, hx.write, ?_, ?_, hx.sent, hx.unsent⟩
    · rw [hx.got, hlen]
      omega
    · rw [hx.read, hlen]
      omega
  rw [if_neg hwrite] at hround
  have hu : ¬w.Unexpected polls n := fun hu => hu.elim hread hwrite
  have hx₂ : w.After polls (n + 1) (if (polls n).rxserv then x₁.receive (polls n).rxdata
      else x₁) := by
    by_cases hrx : (polls n).rxserv = true
    · have hdel : Delivers w.flags polls n := ⟨hrx, hread⟩
      rw [After, hgiven, if_pos hdel, if_pos hrx, contents]
      simpa only [hdel, true_and] using hx.receive (polls n).rxdata
    · have hdel : ¬Delivers w.flags polls n := fun hdel => hrx hdel.1
      rw [After, hgiven, if_neg hdel, if_neg hrx, contents, if_neg fun htake => hdel htake.1]
      exact hx
  generalize (if (polls n).rxserv = true then x₁.receive (polls n).rxdata else x₁) = x₂
    at hround hx₂
  have hleft : x₂.readDataLen = 0 ↔ w.readLen ≤ given w.flags polls (n + 1) := by
    rw [hx₂.read]
    omega
  have hc : w.Completes polls n ↔ (polls n).merr = false
      ∧ ((polls n).mcomp = true ∧ ¬(w.flags = .readCombo ∧ x₂.readDataLen ≠ 0)) := by
    simp [Completes, hu, hleft]
  split_ifs at hround with hmerr hmcomp helapsed <;> cases hround
  · exact ⟨hx₂, by simp [Leaves, hmerr], by simp [hc, hmerr]⟩
  · have hcomp := hc.2 ⟨by simpa using hmerr, hmcomp⟩
    exact ⟨hx₂, by simp [Leaves, hcomp], by simp [hcomp]⟩
  · have hcomp : ¬w.Completes polls n := fun hcomp => hmcomp (hc.1 hcomp).2
    exact ⟨hx₂, by simp [Leaves, helapsed], by simp [hcomp]⟩
  · have hcomp : ¬w.Completes polls n := fun hcomp => hmcomp (hc.1 hcomp).2
    exact ⟨hx₂, by simp [Leaves, hu, hmerr, hcomp, helapsed], by simp [hcomp]⟩

/-- The loop up to round `n`: it is left in the first round that leaves it. -/
theorem wait (hw : w.Sound) (h : w.After polls 0 x) (n : ℕ) :
    (∃ y, waitForCompletion w.flags polls x n = (y, none) ∧ w.After polls n y
        ∧ ∀ m < n, ¬w.Leaves polls m)
      ∨ ∃ m < n, ∃ y ending, waitForCompletion w.flags polls x n = (y, some ending)
        ∧ w.After polls (m + 1) y ∧ (ending = .complete ↔ w.Completes polls m)
        ∧ w.Leaves polls m ∧ ∀ k < m, ¬w.Leaves polls k := by
  induction n with
  | zero => exact .inl ⟨x, rfl, h, by simp⟩
  | succ n ih =>
    rw [waitForCompletion]
    obtain ⟨y, hwait, hy, hgoes⟩ | ⟨m, hm, y, ending, hwait, hrest⟩ := ih
    · rw [hwait]
      obtain ⟨⟨z, o⟩, hround⟩ : ∃ r, waitRound w.flags y (polls n) = r := ⟨_, rfl⟩
      obtain ⟨hz, hleaves, hcomp⟩ := round hw hy hround
      dsimp only
      rw [hround]
      cases o with
      | some ending =>
        exact .inr ⟨n, n.lt_succ_self, z, ending, rfl, hz, by simpa using hcomp, hleaves.1 rfl,
          hgoes⟩
      | none =>
        refine .inl ⟨z, rfl, hz, Nat.forall_lt_succ_right.2 ⟨hgoes, fun hl => ?_⟩⟩
        simpa using hleaves.2 hl
    · rw [hwait]
      exact .inr ⟨m, hm.trans n.lt_succ_self, y, ending, rfl, hrest⟩

/-- What a transfer has sent is a part of the message from its start on, if no byte did harm. -/
theorem After.sent_eq (h : w.After polls n x) (hharm : ∀ m < n, w.Harmless polls m) :
    x.sent <+: w.message ∧ (x.addrBuf = [] → x.writeDataLen = 0 → x.sent = w.message) := by
  have hv := contents_eq_iff.2 hharm
  have hwrite := h.write
  have hmap : (List.range x.writeOffs).map (w.contents polls n)
      = (List.range x.writeOffs).map w.data :=
    List.map_congr_left fun i hi => hv i (by have := List.mem_range.1 hi; omega)
  have hsent := h.sent
  rw [hmap] at hsent
  constructor
  · have hpre : w.addr ++ (List.range x.writeOffs).map w.data <+: w.message := by
      refine (List.prefix_append_right_inj _).2 (List.IsPrefix.map _ ?_)
      rw [show x.writeOffs = min x.writeOffs w.writeLen by omega, ← List.take_range]
      exact List.take_prefix _ _
    exact (hsent ▸ List.prefix_append x.sent x.addrBuf).trans hpre
  · intro haddr hlen
    rw [haddr, List.append_nil] at hsent
    rw [hsent, message, show x.writeOffs = w.writeLen by omega]

end Wait

/-! ## The report -/

/-- The transfer that a request starts. -/
def Wait.start (flags : I2cM) (addr addrLen : ℕ) (buf : ℕ → UInt8) (writeLen readLen : ℕ) :
    Wait where
  flags := if flags = .read ∧ addrLen % 2 ^ 32 ≠ 0 then .readCombo else flags
  addr := addrBytes (addr % 2 ^ 32) (addrLen % 2 ^ 32)
  data := buf
  writeLen := writeLen % 2 ^ 32
  readLen := readLen % 2 ^ 32

theorem Wait.sound_start {flags : I2cM} {writeLen readLen : ℕ} (addr addrLen : ℕ) (buf : ℕ → UInt8)
    (hlen : lengthsInvalid flags (writeLen % 2 ^ 32) (readLen % 2 ^ 32) = false) :
    (Wait.start flags addr addrLen buf writeLen readLen).Sound := by
  constructor <;> cases flags <;> simp_all [lengthsInvalid, start, addrBytes]
  split_ifs <;> decide

/-- A request that passes the checks starts its transfer, and the first byte is handed over. -/
theorem xfer_eq {c : Controller} {flags : I2cM} {devAddr addrLen writeLen readLen : ℕ} (addr : ℕ)
    (buf : ℕ → UInt8) (hlen : lengthsInvalid flags (writeLen % 2 ^ 32) (readLen % 2 ^ 32) = false)
    (hdev : devAddr % 2 ^ 8 ≤ 0x7F) (haddr : addrLen % 2 ^ 32 ≤ maxAddrBytes)
    (hen : c.enabled = true) (hidle : c.idle = true) :
    ∃ x, (Wait.start flags addr addrLen buf writeLen readLen).After c.polls 0 x ∧
      ∀ rounds y ending, waitForCompletion
        (Wait.start flags addr addrLen buf writeLen readLen).flags
          c.polls x rounds = (y, ending) →
        adiTwiI2cXfer c rounds flags devAddr addr addrLen (some buf) writeLen readLen
          = (ending.map fun _ =>
              if (y.writeDataLen + y.readDataLen) % 2 ^ 32 = 0 then .success else .negative,
            some ⟨devAddr % 2 ^ 8, (Wait.start flags addr addrLen buf writeLen readLen).flags, y,
              ending⟩) := by
  refine ⟨_, Wait.progress_start _, fun rounds y ending hwait => ?_⟩
  rw [adiTwiI2cXfer]
  dsimp only
  rw [if_neg (by rw [hlen]; simp), if_neg (Nat.not_lt.2 hdev), if_neg (Nat.not_lt.2 haddr),
    if_neg (by simp [hen]), if_neg (by simp [hidle])]
  simp only [Wait.start] at hwait
  rw [hwait]
  rfl

/-- A request that fails a check starts none. -/
theorem xfer_refused {c : Controller} {rounds : ℕ} {flags : I2cM}
    {devAddr addr addrLen writeLen readLen : ℕ} {data : Option (ℕ → UInt8)}
    (hlen : lengthsInvalid flags (writeLen % 2 ^ 32) (readLen % 2 ^ 32) = false)
    (h : ¬(devAddr % 2 ^ 8 ≤ 0x7F ∧ addrLen % 2 ^ 32 ≤ maxAddrBytes ∧ data.isSome = true
      ∧ c.enabled = true ∧ c.idle = true)) :
    adiTwiI2cXfer c rounds flags devAddr addr addrLen data writeLen readLen
      = (some .negative, none) := by
  cases data <;> simp only [adiTwiI2cXfer, hlen] <;> split_ifs <;> simp_all

/-- Where every poll finds an error, the first round is the last. -/
def failing : Controller := ⟨true, true, true, fun _ => ⟨false, false, true, false, 0, false⟩⟩

end Optee.Twi
