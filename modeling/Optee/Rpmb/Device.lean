import Optee.Rpmb.Frame

/-!
# A device that does as it is told

An RPMB device behind a normal world that hands on every request and every answer. It takes a write
whose MAC and counter are right, and answers with frames that it signs.
-/

namespace Optee.Rpmb

/-- Its key, what it reports of itself, the most blocks it takes in one write, the write counter,
the blocks, and the writes that it took, by first block and number. -/
structure Device where
  key : Key
  cid : ByteVec 16
  sizeMult : Fin 256
  relWrSecC : Fin 256
  limit : ℕ
  counter : ℕ
  blocks : ℕ → Block
  writes : List (ℕ × ℕ)

variable (C : Crypto)

namespace Device

def nblocks (d : Device) : ℕ := d.sizeMult.1 * 512

def failed (result : ℕ) : Frame := { Frame.zero .other with opResult := result }

def sign (d : Device) (b : Body) : Frame := ⟨b, C.hmac d.key [b]⟩

def readFrames (d : Device) (nonce : ByteVec 16) (address count : ℕ) (i : ℕ) : Frame :=
  let body k : Body := ⟨d.blocks (address + k), nonce, 0, address, count, 0, .respAuthDataRead⟩
  ⟨body i, if i = count - 1 then C.hmac d.key ((List.range count).map body) else ByteVec.zero _⟩

def writeBlocks (blocks : ℕ → Block) (address : ℕ) (data : List Block) (j : ℕ) : Block :=
  if address ≤ j then data.getD (j - address) (blocks j) else blocks j

def refuses (d : Device) (frames : List Frame) (last : Frame) : Option ℕ :=
  if last.keyMac ≠ C.hmac d.key (frames.map (·.toBody)) then some 2
  else if last.writeCounter ≠ d.counter ∨ d.counter + 1 = 2 ^ 32 then some 3
  else if d.nblocks < last.address + frames.length then some 4
  else if d.limit < frames.length ∨ last.blockCount ≠ frames.length then some 1
  else none

/-- The answer to a request. -/
def exchange (blockCount : ℕ) (frames : List Frame) (d : Device) : Option (ℕ → Frame) × Device :=
  match frames.getLast? with
  | none => (none, d)
  | some last =>
    match last.msgType with
    | .reqWriteCounterValRead =>
      (some fun _ => d.sign C ⟨ByteVec.zero _, last.nonce, d.counter, 0, 0, 0,
        .respWriteCounterValRead⟩, d)
    | .reqAuthDataRead =>
      if d.nblocks < last.address + blockCount then (some fun _ => failed 4, d)
      else (some (d.readFrames C last.nonce last.address blockCount), d)
    | .reqAuthDataWrite =>
      match d.refuses C frames last with
      | some result => (some fun _ => failed result, d)
      | none =>
        (some fun _ => d.sign C ⟨ByteVec.zero _, ByteVec.zero _, d.counter + 1, last.address, 0, 0,
            .respAuthDataWrite⟩,
          { d with
            counter := d.counter + 1
            blocks := writeBlocks d.blocks last.address (frames.map (·.data))
            writes := d.writes ++ [(last.address, frames.length)] })
    | _ => (some fun _ => failed 1, d)

end Device

def faithful : World Device where
  getDevInfo d := (some ⟨d.cid, d.sizeMult, d.relWrSecC, true⟩, d)
  exchange blockCount frames d := d.exchange C blockCount frames

end Optee.Rpmb
