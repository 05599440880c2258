import Mathlib
import Optee.Adi.RuntimeLog

/-!
# The runtime log is a bounded queue

The operations are those of a bounded queue in runs where the lock excludes (`log_fifo`). But two
threads may find the lock free before either sets it (`log_torn`), and a read takes a full buffer,
with equal indices, for an empty one.
-/

namespace Optee.RuntimeLog

open Access

/-! ## The specification -/

/-- What a call returns and leaves, for the queue that the log should be. -/
def specOp : Op → List UInt8 → List UInt8 × List UInt8
  | .write message, stored =>
    ([], (stored ++ message.takeWhile (· ≠ 0) ++ [GROUP_SEPARATOR]).take
      SIZE_OF_OPTEE_RUNTIME_BUFFER)
  | .read size, stored => (stored.take size.toNat, [])

/-- What a read returns reaches the client as it is. -/
def Delivers (stored : List UInt8) (o : Op) : Prop :=
  delivered (specOp o stored).1 = some (specOp o stored).1

/-- The ring buffer holds these characters. -/
structure Holds (s : Shared) (stored : List UInt8) : Prop where
  length : s.bufferLength = stored.length
  fits : stored.length ≤ 500
  nonneg : 0 ≤ s.readIndex
  lt : s.readIndex < 500
  write : s.writeIndex = (s.readIndex + stored.length) % 500
  char : ∀ (i : ℕ) c, stored[i]? = some c → s.runtimeLog ((s.readIndex + i) % 500) = c

/-- The calls that are done, in their order, are those of a queue, which the buffer holds while it
is not locked. -/
def Fifo {n : ℕ} (s : State n) : Prop :=
  ∃ stored, Serial specOp Delivers [] s.log stored ∧ (s.lock = false → Holds s.shared stored)

variable {α : Type} {s : Shared} {stored : List UInt8}

theorem holds_cleared : Holds cleared [] := ⟨rfl, by simp, le_rfl, by decide, rfl, by simp⟩

/-! ## Writing -/

/-- The variables after `write_char_to_buffer`. -/
def putChar (c : UInt8) (s : Shared) : Shared :=
  if s.bufferLength = 500 then s
  else
    { s with
      runtimeLog := Function.update s.runtimeLog s.writeIndex c
      bufferLength := s.bufferLength + 1
      writeIndex := if s.writeIndex + 1 = 500 then 0 else s.writeIndex + 1 }

theorem run_writeChar (c : UInt8) (k : Access Shared α) (s : Shared) :
    (writeCharToBuffer c k).run s = k.run (putChar c s) := by
  have hsize : (SIZE_OF_OPTEE_RUNTIME_BUFFER : ℤ) = 500 := rfl
  simp only [writeCharToBuffer, putChar, run_get, run_ite, run_store, hsize]
  split_ifs <;> rfl

theorem Holds.putChar (h : Holds s stored) (c : UInt8) :
    Holds (putChar c s) ((stored ++ [c]).take 500) := by
  obtain ⟨hlen, hfits, hnonneg, hlt, hwrite, hchar⟩ := h
  unfold RuntimeLog.putChar
  by_cases hfull : s.bufferLength = 500
  · rw [if_pos hfull, List.take_append_of_le_length (by omega), List.take_of_length_le (by omega)]
    exact ⟨hlen, hfits, hnonneg, hlt, hwrite, hchar⟩
  · have hlen' : (stored ++ [c]).length = stored.length + 1 := by simp
    rw [if_neg hfull, List.take_of_length_le (by omega)]
    refine ⟨by simp [hlen], by omega, hnonneg, hlt, ?_, fun i c' hi => ?_⟩
    · rw [hlen']
      simp only
      split <;> omega
    · show Function.update s.runtimeLog s.writeIndex c ((s.readIndex + i) % 500) = c'
      by_cases hlast : i < stored.length
      · -- the new character is not among the first `stored.length` places from the read index on
        rw [List.getElem?_append_left hlast] at hi
        rw [Function.update_of_ne (by omega)]
        exact hchar i c' hi
      · rw [List.getElem?_append_right (by omega), List.getElem?_singleton] at hi
        obtain ⟨hi, rfl⟩ : i - stored.length = 0 ∧ c = c' := by simpa using hi
        rw [show (s.readIndex + i) % 500 = s.writeIndex by rw [hwrite]; omega, Function.update_self]

theorem take_take_append {n : ℕ} (l r : List UInt8) : (l.take n ++ r).take n = (l ++ r).take n := by
  rw [List.take_append, List.take_append, List.take_take, List.length_take]
  congr 2 <;> omega

theorem Holds.writeMessage :
    ∀ (message : List UInt8) {s : Shared} {stored : List UInt8}, Holds s stored →
    ((writeMessage message).run s).1 = []
      ∧ Holds ((writeMessage message).run s).2 (specOp (.write message) stored).2
  | [], s, stored, h => by
    rw [RuntimeLog.writeMessage, run_writeChar]
    exact ⟨rfl, by simpa [specOp, SIZE_OF_OPTEE_RUNTIME_BUFFER] using h.putChar GROUP_SEPARATOR⟩
  | c :: message, s, stored, h => by
    rw [RuntimeLog.writeMessage]
    split_ifs with hc
    · rw [run_writeChar]
      exact ⟨rfl,
        by simpa [specOp, hc, SIZE_OF_OPTEE_RUNTIME_BUFFER] using h.putChar GROUP_SEPARATOR⟩
    · rw [run_writeChar]
      obtain ⟨hres, hholds⟩ := Holds.writeMessage message (h.putChar c)
      refine ⟨hres, ?_⟩
      have htext : (specOp (.write (c :: message)) stored).2
          = (specOp (.write message) ((stored ++ [c]).take 500)).2 := by
        simp only [specOp, SIZE_OF_OPTEE_RUNTIME_BUFFER, List.append_assoc, take_take_append]
        simp [hc]
      rwa [htext]

/-! ## Reading -/

/-- The buffer without its first character. -/
def tail (s : Shared) : Shared :=
  { s with
    readIndex := if s.readIndex + 1 = 500 then 0 else s.readIndex + 1
    bufferLength := s.bufferLength - 1 }

theorem run_readChar (k : UInt8 → Access Shared α) (s : Shared) :
    (readCharFromBuffer k).run s = (k (s.runtimeLog s.readIndex)).run (tail s) := by
  have hsize : (SIZE_OF_OPTEE_RUNTIME_BUFFER : ℤ) = 500 := rfl
  simp only [readCharFromBuffer, tail, run_get, run_ite, run_store, hsize]
  split_ifs <;> rfl

theorem Holds.tail {c : UInt8} (h : Holds s (c :: stored)) : Holds (tail s) stored := by
  obtain ⟨hlen, hfits, hnonneg, hlt, hwrite, hchar⟩ := h
  rw [List.length_cons] at hlen hfits hwrite
  unfold RuntimeLog.tail
  refine ⟨by simp only; omega, by omega, by simp only; omega, by simp only; omega, ?_,
    fun i c' hi => ?_⟩
  · simp only
    omega
  · have hnext := hchar (i + 1) c' (by simpa using hi)
    simp only
    rw [← hnext]
    congr 1
    omega

theorem Holds.readLoop (k : List UInt8 → Access Shared α) :
    ∀ (room : ℕ) (message : List UInt8) {s : Shared}
    {stored : List UInt8}, Holds s stored → stored.length < 500 →
    ∃ s', (readLoop k room message).run s = (k (message ++ stored.take room)).run s'
      ∧ s'.writeIndex = s.writeIndex
  | 0, message, s, stored, _, _ => ⟨s, by simp [RuntimeLog.readLoop], rfl⟩
  | room + 1, message, s, stored, h, hlt => by
    have hlt500 := h.lt
    have hnonneg := h.nonneg
    have hwrite := h.write
    simp only [RuntimeLog.readLoop, run_get, run_ite, run_readChar]
    cases stored with
    | nil =>
      rw [if_pos (by simp only [List.length_nil] at hwrite; omega)]
      exact ⟨s, by simp, rfl⟩
    | cons c stored =>
      rw [List.length_cons] at hlt hwrite
      rw [if_neg (by omega)]
      have hc : s.runtimeLog s.readIndex = c := by
        have := h.char 0 c rfl
        rwa [Int.natCast_zero, add_zero, Int.emod_eq_of_lt hnonneg hlt500] at this
      obtain ⟨s', hrun, hs'⟩ := Holds.readLoop k room (message ++ [c]) h.tail (by omega)
      exact ⟨s', by rw [hc, hrun]; simp, hs'⟩

theorem run_clearLog (k : Access Shared α) : ∀ (n : ℕ) (s : Shared),
    ∃ f, (clearLog k n).run s = k.run { s with runtimeLog := f }
  | 0, s => ⟨s.runtimeLog, rfl⟩
  | n + 1, s => run_clearLog k n { s with runtimeLog := Function.update s.runtimeLog n 0 }

theorem holds_clearBuffer (message : List UInt8) (h0 : 0 ≤ s.writeIndex) (h : s.writeIndex < 500) :
    ((clearBuffer message).run s).1 = message ∧ Holds ((clearBuffer message).run s).2 [] := by
  obtain ⟨f, hf⟩ :=
    run_clearLog (get (·.writeIndex) fun w => .store (fun s => { s with readIndex := w }) <|
      .store (fun s => { s with bufferLength := 0 }) (.done message)) SIZE_OF_OPTEE_RUNTIME_BUFFER s
  rw [clearBuffer, hf]
  exact ⟨rfl, rfl, by simp, h0, h, by simp [Int.emod_eq_of_lt h0 h], by simp⟩

/-! ## Runs -/

/-- No read is of a full buffer. -/
def MayBegin (s : Shared) : Op → Prop
  | .write _ => True
  | .read _ => s.bufferLength ≠ SIZE_OF_OPTEE_RUNTIME_BUFFER

instance MayBegin.decidable (s : Shared) : (o : Op) → Decidable (MayBegin s o)
  | .write _ => isTrue trivial
  | .read _ => inferInstanceAs (Decidable (_ ≠ _))

theorem delivered_self {message : List UInt8} (hlt : message.length < 500) (hzero : 0 ∉ message) :
    delivered message = some message := by
  obtain ⟨n, hn⟩ : ∃ n, SIZE_OF_OPTEE_RUNTIME_BUFFER - message.length = n + 1 :=
    ⟨499 - message.length, by rw [SIZE_OF_OPTEE_RUNTIME_BUFFER]; omega⟩
  simp only [delivered, hn, List.replicate_succ]
  rw [if_pos (by simp), List.takeWhile_append_of_pos]
  · simp
  · intro c hc
    simp only [ne_eq, decide_not, Bool.not_eq_true', decide_eq_false_iff_not]
    rintro rfl
    exact hzero hc

theorem zero_notMem_specOp {o : Op} (h : 0 ∉ stored) : 0 ∉ (specOp o stored).2 := by
  cases o with
  | read size => simp [specOp]
  | write message =>
    intro hmem
    have hmem := List.mem_of_mem_take hmem
    rw [List.append_assoc, List.mem_append, List.mem_append] at hmem
    rcases hmem with hs | ht | hg
    · exact h hs
    · simpa using List.mem_takeWhile_imp ht
    · exact absurd hg (by decide)

theorem Holds.body {o : Op} (h : Holds s stored) (hzero : 0 ∉ stored) (hok : MayBegin s o) :
    Delivers stored o ∧ (specOp o stored).1 = ((body o).run s).1
      ∧ Holds ((body o).run s).2 (specOp o stored).2 := by
  cases o with
  | write message =>
    obtain ⟨hres, hholds⟩ := h.writeMessage message
    exact ⟨delivered_self (by simp [specOp]) (by simp [specOp]), hres.symm, hholds⟩
  | read size =>
    have hlt : stored.length < 500 := by
      have hne : s.bufferLength ≠ 500 := hok
      have := h.fits
      rw [h.length] at hne
      omega
    have hw : 0 ≤ s.writeIndex ∧ s.writeIndex < 500 := by
      rw [h.write]
      omega
    obtain ⟨s', hrun, hs'⟩ := h.readLoop clearBuffer size.toNat [] hlt
    obtain ⟨hres, hholds⟩ := holds_clearBuffer (stored.take size.toNat) (hs' ▸ hw.1) (hs' ▸ hw.2)
    refine ⟨delivered_self ?_ fun hmem => hzero (List.mem_of_mem_take hmem), ?_, ?_⟩
    · rw [specOp, List.length_take]
      omega
    · rw [RuntimeLog.body, hrun]
      exact hres.symm
    · rw [RuntimeLog.body, hrun]
      exact hholds

/-- The log is a bounded queue in every run in which no thread finds the lock free while another is
about to take it, and no read begins while the buffer is full. -/
theorem log_fifo {n : ℕ} (events : List (LockEvent n Op)) (s : State n)
    (hsound : Guarded (Locked.Sound MayBegin) (Locked.step body) (Locked.init n cleared) events)
    (hrun : exec (Locked.step body) (Locked.init n cleared) events = .ok s) : Fifo s := by
  have hinv : Locked.Inv body MayBegin cleared s :=
    exec_invariant (fun _ _ _ h hg hs => h.step hg hs) (Locked.inv_init cleared) hsound hrun
  obtain ⟨s₁, hserial, hfree, -⟩ := hinv.serial
  have hsim : ∃ stored, Serial specOp Delivers [] s.log stored ∧ Holds s₁ stored ∧ 0 ∉ stored := by
    refine hserial.simulates (R := fun s stored => Holds s stored ∧ 0 ∉ stored) ⟨holds_cleared,
      List.not_mem_nil⟩ ?_
    intro s stored o hR hok
    obtain ⟨hdel, hres, hholds⟩ := hR.1.body hR.2 hok
    exact ⟨hdel, hres, hholds, zero_notMem_specOp hR.2⟩
  obtain ⟨stored, hspec, hholds⟩ := hsim
  exact ⟨stored, hspec, fun hl => hfree hl ▸ hholds.1⟩

/-- A thread writes, and then another reads. -/
def writeRead : List (LockEvent 2 Op) :=
  .call 0 (.write [97]) :: List.replicate 19 (.run 0) ++ .call 1 (.read 500)
    :: List.replicate 526 (.run 1)

theorem log_fifo_writeRead :
    ∃ s : State 2, exec (Locked.step body) (Locked.init 2 cleared) writeRead = .ok s
    ∧ s.log = [(.read 500, [97, GROUP_SEPARATOR]), (.write [97], [])] ∧ Fifo s := by
  obtain ⟨s, hs, hlog⟩ : ∃ s :
    State 2, exec (Locked.step body) (Locked.init 2 cleared) writeRead = .ok s
      ∧ s.log = [(.read 500, [97, GROUP_SEPARATOR]), (.write [97], [])] :=
    exists_ok_of_decide (by decide +kernel)
  exact ⟨s, hs, hlog, log_fifo writeRead s (by decide +kernel) hs⟩

def bothWrite : List (LockEvent 2 Op) :=
  .call 0 (.write [97]) :: .call 1 (.write [98]) :: (List.replicate 19 [.run 0, .run 1]).flatten

/-- Both find the lock free, and the messages lie over each other. -/
theorem log_torn :
    ∃ s : State 2, exec (Locked.step body) (Locked.init 2 cleared) bothWrite = .ok s
      ∧ ¬ Fifo s := by
  obtain ⟨s, hs, hlog, hlock, hlen⟩ : ∃ s : State 2,
      exec (Locked.step body) (Locked.init 2 cleared) bothWrite = .ok s
      ∧ s.log = [(.write [98], []), (.write [97], [])] ∧ s.lock = false
      ∧ s.shared.bufferLength = 2 :=
    exists_ok_of_decide (by decide +kernel)
  refine ⟨s, hs, ?_⟩
  rintro ⟨stored, hserial, hholds⟩
  rw [hlog] at hserial
  obtain ⟨stored₁, hfirst, rfl⟩ := hserial.last
  obtain ⟨stored₀, hnone, rfl⟩ := hfirst.last
  cases hnone
  have hlength := (hholds hlock).length
  rw [hlen] at hlength
  exact absurd hlength (by decide)

end Optee.RuntimeLog
