import Optee.Adi.I2c
import Optee.Proofs.Adi.Twi
import Mathlib.Data.Nat.Log
import Mathlib.Tactic.NormNum

/-!
# I2C transfers and the access table

A request that passes the checks starts a transfer whose message is the address in as many bytes as
the client says, followed by as many bytes as it says from its buffer on (`command_transfer`).
-/

namespace Optee.Twi

/-! ## Address bytes -/

theorem addrBytes_eq (addr n : ℕ) : addrBytes addr n = (leBytes n addr).reverse := by
  refine List.ext_getElem? fun i => ?_
  rcases Nat.lt_or_ge i n with hi | hi
  · rw [List.getElem?_reverse (by simpa using hi), leBytes_length,
      getElem?_leBytes _ _ _ (by omega)]
    simp [addrBytes, hi]
  · rw [List.getElem?_eq_none (by simpa [addrBytes] using hi),
      List.getElem?_eq_none (by simpa using hi)]

theorem length_addrBytes (addr n : ℕ) : (addrBytes addr n).length = n := by
  rw [addrBytes_eq, List.length_reverse, leBytes_length]

theorem addrBytes_inj {a b n : ℕ} :
    addrBytes a n = addrBytes b n ↔ a % 256 ^ n = b % 256 ^ n := by
  rw [addrBytes_eq, addrBytes_eq, List.reverse_inj]
  refine ⟨fun h => ?_, fun h => ?_⟩
  · rw [← ofLeBytes_leBytes_mod, ← ofLeBytes_leBytes_mod, h]
  · have hmod : ∀ v, leBytes n v = leBytes n (v % 256 ^ n) := fun v => by
      have := leBytes_ofLeBytes (leBytes n v)
      rwa [leBytes_length, ofLeBytes_leBytes_mod, eq_comm] at this
    rw [hmod a, hmod b, h]

/-! ## Controllers that send before they receive -/

/-- No byte is delivered before all that are to be sent were asked for. -/
def Orderly (sends : ℕ) (polls : ℕ → Poll) : Prop :=
  ∀ n, (polls n).rxserv = true → sends ≤ asked polls (n + 1)

/-- All bytes were sent. -/
def Xfer.Done (x : Xfer) : Prop := x.addrBuf = [] ∧ x.writeDataLen = 0

theorem Wait.harmless_of_orderly {w : Wait} {polls : ℕ → Poll} (h : Orderly w.total polls) (n : ℕ) :
    w.Harmless polls n := by
  intro hdel _ hwritten hlt
  have := h n hdel.1
  rw [Wait.written] at hwritten
  omega

/-- A controller that goes on asking for bytes. -/
def serving : Controller := ⟨true, true, true, fun _ => ⟨true, false, false, false, 0, false⟩⟩

theorem asked_serving (n : ℕ) : asked serving.polls n = n := by
  simp [asked, serving]

theorem Wait.wait_serving {w : Wait} {x : Xfer} (hw : w.Sound) (h : w.After serving.polls 0 x) :
    ∃ y, waitForCompletion w.flags serving.polls x w.total = (y, none)
      ∧ w.After serving.polls w.total y ∧ y.Done := by
  obtain ⟨y, hwait, hy, -⟩ | ⟨m, hm, -, -, -, -, -, hleaves, -⟩ := Wait.wait hw h w.total
  · have hleft := hy.left
    rw [asked_serving, Nat.sub_self] at hleft
    exact ⟨y, hwait, hy, List.length_eq_zero_iff.1 (by omega), by omega⟩
  · -- only a read would stop, and that has nothing to send
    have hflags : w.flags = .read := by
      simpa [Wait.Leaves, Wait.Unexpected, Wait.Completes, serving] using hleaves
    simp [Wait.total, hw.addr hflags, hw.writeLen hflags] at hm

theorem xfer_sends {flags : I2cM} {devAddr addrLen writeLen readLen : ℕ} (addr : ℕ)
    (buf : ℕ → UInt8)
    (hlen : lengthsInvalid flags (writeLen % 2 ^ 32) (readLen % 2 ^ 32) = false)
    (hdev : devAddr % 2 ^ 8 ≤ 0x7F) (haddr : addrLen % 2 ^ 32 ≤ maxAddrBytes) :
    ∃ rounds tr, (adiTwiI2cXfer serving rounds flags devAddr addr addrLen (some buf) writeLen
      readLen).2 = some tr ∧ tr.xfer.Done := by
  obtain ⟨x, hx, hxfer⟩ := xfer_eq (c := serving) addr buf hlen hdev haddr rfl rfl
  obtain ⟨y, hwait, -, hdone⟩ := Wait.wait_serving (Wait.sound_start addr addrLen buf hlen) hx
  exact ⟨_, _, congrArg Prod.snd (hxfer _ y none hwait), hdone⟩

/-- What a transfer that was started has sent. -/
theorem xfer_transfer {c : Controller} {rounds : ℕ} {flags : I2cM}
    {devAddr addr addrLen writeLen readLen : ℕ} {buf : ℕ → UInt8} {tr : Transfer}
    (horderly : Orderly (addrLen % 2 ^ 32 + writeLen % 2 ^ 32 - 1) c.polls)
    (h : (adiTwiI2cXfer c rounds flags devAddr addr addrLen (some buf) writeLen readLen).2
      = some tr) :
    lengthsInvalid flags (writeLen % 2 ^ 32) (readLen % 2 ^ 32) = false
      ∧ devAddr % 2 ^ 8 ≤ 0x7F ∧ addrLen % 2 ^ 32 ≤ maxAddrBytes ∧ tr.devAddr = devAddr % 2 ^ 8
      ∧ tr.xfer.sent <+: addrBytes (addr % 2 ^ 32) (addrLen % 2 ^ 32)
        ++ (List.range (writeLen % 2 ^ 32)).map buf
      ∧ (tr.xfer.Done → tr.xfer.sent = addrBytes (addr % 2 ^ 32) (addrLen % 2 ^ 32)
        ++ (List.range (writeLen % 2 ^ 32)).map buf) := by
  cases hlen : lengthsInvalid flags (writeLen % 2 ^ 32) (readLen % 2 ^ 32) with
  | true =>
    simp only [adiTwiI2cXfer, hlen, if_true] at h
    cases h
  | false =>
    by_cases hok : devAddr % 2 ^ 8 ≤ 0x7F ∧ addrLen % 2 ^ 32 ≤ maxAddrBytes
        ∧ (some buf).isSome = true ∧ c.enabled = true ∧ c.idle = true
    swap
    · rw [xfer_refused hlen hok] at h
      cases h
    obtain ⟨hdev, haddr, -, hen, hidle⟩ := hok
    set w := Wait.start flags addr addrLen buf writeLen readLen with hw
    have hharm : ∀ n, w.Harmless c.polls n := by
      refine fun n => Wait.harmless_of_orderly ?_ n
      rwa [Wait.total, hw, Wait.start, length_addrBytes]
    obtain ⟨x, hx, hxfer⟩ := xfer_eq addr buf hlen hdev haddr hen hidle
    have hafter : ∃ n y ending, waitForCompletion w.flags c.polls x rounds = (y, ending)
        ∧ w.After c.polls n y := by
      obtain ⟨y, hwait, hy, -⟩ | ⟨m, -, y, ending, hwait, hy, -⟩ :=
        Wait.wait (Wait.sound_start addr addrLen buf hlen) hx rounds
      · exact ⟨rounds, y, none, hwait, hy⟩
      · exact ⟨m + 1, y, some ending, hwait, hy⟩
    obtain ⟨n, y, ending, hwait, hy⟩ := hafter
    rw [hxfer _ y ending hwait] at h
    cases h
    obtain ⟨hpre, hdone⟩ := hy.sent_eq fun m _ => hharm m
    exact ⟨rfl, hdev, haddr, rfl, hpre, fun hd => hdone hd.1 hd.2⟩

end Optee.Twi

namespace Optee.I2c

open Twi

/-- The number of bytes of a register address. -/
def addrWidth (address : ℕ) : ℕ := Nat.log 256 address + 1

/-- A register address at its full width. -/
def fullAddr (address : ℕ) : List UInt8 := addrBytes address (addrWidth address)

/-- A transfer is for an entry of the table that allows the operation: what it has sent is a part of
the address of the entry and `n` bytes of the client's from their start on, and when it has sent
everything it has sent them all. -/
def InTable (table : List I2cEntry) (bus : ℕ) (cmd : Cmd) (n : ℕ) (client : List UInt8)
    (tr : Transfer) : Prop :=
  ∃ e ∈ table, e.bus = bus ∧ e.slave = tr.devAddr ∧ e.allows cmd = true
    ∧ tr.xfer.sent <+: fullAddr e.address ++ client.take n
    ∧ (tr.xfer.Done → n ≤ client.length ∧ tr.xfer.sent = fullAddr e.address ++ client.take n)

/-- A request writes nothing behind `i2c_params`, and every transfer it leads to is in the table,
whatever the controller does that sends before it receives. -/
def StaysInTable (table : List I2cEntry) (last : List UInt8) (cmd : Cmd) (req : Request) : Prop :=
  ∃ p, initI2cParams last req.params = some p ∧ ∀ env rounds,
    Orderly (p.length % 2 ^ 32 + cmd.writeLen p - 1) env.controller.polls →
    ∀ r tr, i2cCommand table last env rounds cmd req = some r → r.transfer = some tr →
      InTable table p.bus cmd (cmd.writeLen p) req.client tr

/-- A request passes all the checks before a transfer. -/
def Starts (table : List I2cEntry) (p : I2cParams) (cmd : Cmd) (typesOk : Bool) : Prop :=
  adiI2cCheckParams table p cmd typesOk = true ∧ p.bus = 0
    ∧ lengthsInvalid cmd.flags (cmd.writeLen p) (cmd.readLen p) = false
    ∧ p.slave % 2 ^ 8 ≤ 0x7F ∧ p.length % 2 ^ 32 ≤ maxAddrBytes

/-- The table has an entry for what is sent, and the client's buffer has the bytes. -/
def Fits (table : List I2cEntry) (p : I2cParams) (cmd : Cmd) (client : List UInt8) : Prop :=
  cmd.writeLen p ≤ client.length ∧ ∃ e ∈ table, e.bus = p.bus ∧ e.slave = p.slave % 2 ^ 8
    ∧ e.allows cmd = true ∧ addrWidth e.address = p.length % 2 ^ 32
    ∧ e.address = p.address % 256 ^ (p.length % 2 ^ 32)

variable {table : List I2cEntry} {env : Env} {rounds : ℕ} {p : I2cParams} {cmd : Cmd}
  {client last : List UInt8} {typesOk : Bool} {req : Request}

theorem lt_pow_addrWidth (address : ℕ) : address < 256 ^ addrWidth address :=
  Nat.lt_pow_succ_log_self (by decide) address

theorem mod_mod_addr {addr len : ℕ} (h : len ≤ maxAddrBytes) :
    addr % 2 ^ 32 % 256 ^ len = addr % 256 ^ len := by
  refine Nat.mod_mod_of_dvd addr ?_
  calc 256 ^ len ∣ 256 ^ 4 := Nat.pow_dvd_pow 256 (h.trans (by decide))
    _ = 2 ^ 32 := by norm_num

/-- The lengths that pass the check fit in a `uint32_t`. -/
theorem lens_mod (h : adiI2cCheckParams table p cmd typesOk = true) :
    cmd.writeLen p % 2 ^ 32 = cmd.writeLen p ∧ cmd.readLen p % 2 ^ 32 = cmd.readLen p := by
  simp only [adiI2cCheckParams, Bool.and_eq_true, decide_eq_true_eq] at h
  obtain ⟨⟨-, hset⟩, hget⟩ := h
  rw [adiI2cMaxBytes] at hset hget
  constructor <;> refine Nat.mod_eq_of_lt ?_ <;> cases cmd <;>
    simp only [Cmd.writeLen, Cmd.readLen] <;> omega

/-- The bytes that are sent from the client's buffer are the client's if there are enough. -/
theorem map_byteAt (env : Env) {n : ℕ} (h : n ≤ client.length) :
    (List.range n).map (env.byteAt client) = client.take n := by
  refine List.ext_getElem (by simp [h]) fun i hi _ => ?_
  simp only [List.length_map, List.length_range] at hi
  simp [Env.byteAt, List.getElem?_eq_getElem (hi.trans_le h)]

theorem command_transfer {r : Reply} {tr : Transfer} (hp : initI2cParams last req.params = some p)
    (horderly : Orderly (p.length % 2 ^ 32 + cmd.writeLen p - 1) env.controller.polls)
    (h : i2cCommand table last env rounds cmd req = some r) (htr : r.transfer = some tr) :
    Starts table p cmd req.typesOk ∧ tr.devAddr = p.slave % 2 ^ 8
      ∧ tr.xfer.sent <+: addrBytes (p.address % 2 ^ 32) (p.length % 2 ^ 32)
        ++ (List.range (cmd.writeLen p)).map (env.byteAt req.client)
      ∧ (tr.xfer.Done → tr.xfer.sent = addrBytes (p.address % 2 ^ 32) (p.length % 2 ^ 32)
        ++ (List.range (cmd.writeLen p)).map (env.byteAt req.client)) := by
  rw [i2cCommand, hp, Option.map_some, Option.some_inj] at h
  by_cases hcheck : adiI2cCheckParams table p cmd req.typesOk = true
  swap
  · rw [if_neg hcheck] at h
    subst h
    cases htr
  rw [if_pos hcheck, i2cXfer] at h
  obtain ⟨hwrite, hread⟩ := lens_mod hcheck
  cases hheap : env.heap with
  | none =>
    rw [hheap] at h
    subst h
    cases htr
  | some heap =>
    rw [hheap] at h
    dsimp only at h
    set buf : ℕ → UInt8 := fun i => if i < cmd.writeLen p then env.byteAt req.client i else heap i
      with hbuf
    have hmap : (List.range (cmd.writeLen p)).map buf
        = (List.range (cmd.writeLen p)).map (env.byteAt req.client) :=
      List.map_congr_left fun i hi => if_pos (List.mem_range.1 hi)
    split_ifs at h with hbus hinit
    · subst h
      cases htr
    · subst h
      cases htr
    have hxfer : (adiTwiI2cXfer env.controller rounds cmd.flags p.slave p.address p.length
        (some buf) (cmd.writeLen p) (cmd.readLen p)).2 = some tr := by
      rw [← htr, ← h]
      split <;> rfl
    obtain ⟨hlen, hdev, haddr, hslave, hsent⟩ := xfer_transfer (by rwa [hwrite]) hxfer
    rw [hwrite, hmap] at hsent
    rw [hwrite, hread] at hlen
    exact ⟨⟨hcheck, not_not.1 hbus, hlen, hdev, haddr⟩, hslave, hsent⟩

theorem Starts.transfer (hp : initI2cParams last req.params = some p)
    (h : Starts table p cmd req.typesOk) :
    ∃ rounds r tr, i2cCommand table last ⟨serving, fun _ => 0, some fun _ => 0⟩ rounds cmd req
      = some r ∧ r.transfer = some tr ∧ tr.xfer.Done := by
  obtain ⟨hcheck, hbus, hlen, hdev, haddr⟩ := h
  obtain ⟨hwrite, hread⟩ := lens_mod hcheck
  rw [← hwrite, ← hread] at hlen
  obtain ⟨rounds, tr, htr, hdone⟩ := xfer_sends p.address (fun i => if i < cmd.writeLen p then
    Env.byteAt ⟨serving, fun _ => 0, some fun _ => 0⟩ req.client i else 0) hlen hdev haddr
  refine ⟨rounds, _, tr, by rw [i2cCommand, hp, Option.map_some, if_pos hcheck], ?_, hdone⟩
  rw [i2cXfer]
  dsimp only
  rw [if_neg (not_not.2 hbus), if_neg (by simp [adiTwiI2cInit, serving])]
  split <;> exact htr

theorem StaysInTable.fits (h : StaysInTable table last cmd req)
    (hp : initI2cParams last req.params = some p) (hstarts : Starts table p cmd req.typesOk) :
    Fits table p cmd req.client := by
  obtain ⟨p', hp', h⟩ := h
  obtain rfl := Option.some.inj (hp.symm.trans hp')
  obtain ⟨rounds, r, tr, hr, htr, hdone⟩ := hstarts.transfer hp
  have horderly : Orderly (p.length % 2 ^ 32 + cmd.writeLen p - 1) serving.polls := by
    simp [Orderly, serving]
  obtain ⟨-, hdev, -, hmsg⟩ := command_transfer hp horderly hr htr
  obtain ⟨e, he, hbus, hslave, hallows, -, hsent⟩ := h _ rounds horderly r tr hr htr
  obtain ⟨hclient, hsent⟩ := hsent hdone
  rw [hmsg hdone, map_byteAt _ hclient] at hsent
  have hlen := congrArg List.length hsent
  rw [List.length_append, List.length_append, length_addrBytes, fullAddr,
    length_addrBytes] at hlen
  have hwidth : addrWidth e.address = p.length % 2 ^ 32 := by omega
  refine ⟨hclient, e, he, hbus, hslave.trans hdev, hallows, hwidth, ?_⟩
  have haddr := (List.append_left_inj _).1 hsent
  rw [fullAddr, hwidth, addrBytes_inj, mod_mod_addr hstarts.2.2.2.2] at haddr
  rw [haddr, ← hwidth, Nat.mod_eq_of_lt (lt_pow_addrWidth _)]

/-- A request stays in the table if and only if it has no more parameter bytes than there is room
for and gets no transfer or the table has an entry for what is sent. -/
theorem stays_in_table_iff (table : List I2cEntry) (last : List UInt8) (cmd : Cmd)
    (req : Request) :
    StaysInTable table last cmd req ↔ ∃ p, initI2cParams last req.params = some p
      ∧ (Starts table p cmd req.typesOk → Fits table p cmd req.client) := by
  constructor
  · intro h
    obtain ⟨p, hp, -⟩ := id h
    exact ⟨p, hp, h.fits hp⟩
  · rintro ⟨p, hp, h⟩
    refine ⟨p, hp, fun env rounds horderly r tr hr htr => ?_⟩
    obtain ⟨hstarts, hdev, hpre, hmsg⟩ := command_transfer hp horderly hr htr
    obtain ⟨hclient, e, he, hbus, hslave, hallows, hwidth, haddr⟩ := h hstarts
    have heq : fullAddr e.address ++ req.client.take (cmd.writeLen p)
        = addrBytes (p.address % 2 ^ 32) (p.length % 2 ^ 32)
          ++ (List.range (cmd.writeLen p)).map (env.byteAt req.client) := by
      rw [map_byteAt env hclient, fullAddr, hwidth, List.append_left_inj, addrBytes_inj,
        mod_mod_addr hstarts.2.2.2.2, haddr, Nat.mod_mod]
    rw [← heq] at hpre hmsg
    exact ⟨e, he, hbus, hslave.trans hdev.symm, hallows, hpre, fun hdone => ⟨hclient, hmsg hdone⟩⟩

/-- The register 0xE7 of a power sequencer may be read, but a read with no address byte selects no
register. -/
theorem read_without_address : ¬StaysInTable [⟨0, 0x41, 0xE7, true, false, false⟩] [] .get
    ⟨true, [0, 0x41, 0xE7, 0, 0, 1, 100000].flatMap (leBytes 8), [0]⟩ := by
  intro h
  obtain ⟨-, e, -, -, -, -, hwidth, -⟩ := h.fits (p := ⟨0, 0x41, 0xE7, 0, 0, 1, 100000⟩) rfl
    ⟨by decide, rfl, by decide, by decide, by decide⟩
  exact absurd hwidth (Nat.succ_ne_zero _)

end Optee.I2c
