import Mathlib
import Optee.Lib.Run
import Optee.OtpMacs

/-!
# MAC addresses are written once

A copy is written over only while two of the three are blank, so that an address that reads back
stays (`getMacAddr_invoke`). A write that is cut in the second copy cannot be completed.
-/

namespace Optee.OtpMacs

open Otp

variable {mem mem' : Mem} {r : Request} {i j k n : ℕ}

/-! ## Three copies -/

/-- The value of two of three copies. -/
def vote (x y z : ℕ) : Option ℕ := if x = y ∨ x = z then some x else if y = z then some y else none

theorem vote_eq_some {x y z v : ℕ} :
    vote x y z = some v ↔ x = v ∧ y = v ∨ x = v ∧ z = v ∨ y = v ∧ z = v := by
  unfold vote
  split_ifs <;> simp only [Option.some.injEq, false_iff] <;> omega

theorem mostCommon_copies (x y z : ℕ) :
    getMostCommonValue [x, y, z] = ((vote x y z).getD x, (vote x y z).isSome) := by
  by_cases hxy : x = y <;> by_cases hxz : x = z <;> by_cases hyz : y = z <;>
    simp_all [vote, getMostCommonValue, mostCommonFrom, eq_comm]

theorem getMacAddr_eq (hi : 1 ≤ i ∧ i ≤ 6) :
    getMacAddr mem i = vote (getMacAddrN mem i 0) (getMacAddrN mem i 1) (getMacAddrN mem i 2) := by
  have hmap : (List.range MAC_ADDRESS_NUM_COPIES).map (getMacAddrN mem i)
      = [getMacAddrN mem i 0, getMacAddrN mem i 1, getMacAddrN mem i 2] := rfl
  rw [getMacAddr, if_neg (by rw [NUM_MAC_ADDRESSES]; omega), hmap, mostCommon_copies]
  cases vote (getMacAddrN mem i 0) (getMacAddrN mem i 1) (getMacAddrN mem i 2) <;> rfl

theorem range_of_getMacAddr {m : ℕ} (h : getMacAddr mem i = some m) : 1 ≤ i ∧ i ≤ 6 := by
  rw [getMacAddr] at h
  split_ifs at h with hi
  rw [NUM_MAC_ADDRESSES] at hi
  omega

/-! ## Programming -/

theorem macWrites_eq (i mac : ℕ) :
    macWrites i mac
    = (List.range 6).map fun c =>
      (macAddr i 0 + c, if c % 2 = 0 then mac % 2 ^ 32 else mac >>> 32) := by
  have hlist : List.range 6 = [0, 1, 2, 3, 4, 5] := rfl
  rw [macWrites, MAC_ADDRESS_NUM_COPIES, hlist, show List.range 3 = [0, 1, 2] from rfl]
  simp [macAddr, MAC_ADDRESS_NUM_REGS, Nat.add_assoc]

theorem macWrites_length {m : ℕ} : (macWrites i m).length = 6 := by
  rw [macWrites_eq, List.length_map, List.length_range]

theorem programmed (mem : Mem) (i mac : ℕ) (x : ℕ) :
    ∀ k ≤ 6, ((macWrites i mac).take k).foldl program mem x
    = if macAddr i 0 ≤ x ∧ x < macAddr i 0 + k
      then mem x ||| (if (x - macAddr i 0) % 2 = 0 then mac % 2 ^ 32 else mac >>> 32) else mem x
  | 0, _ => by simp
  | k + 1, hk => by
    have ih := programmed mem i mac x k (by omega)
    have hwrite : (macWrites i mac)[k]?
        = some (macAddr i 0 + k, if k % 2 = 0 then mac % 2 ^ 32 else mac >>> 32) := by
      rw [macWrites_eq, List.getElem?_map, List.getElem?_range (by omega)]
      rfl
    rw [List.take_add_one, hwrite, Option.toList_some, List.foldl_append, List.foldl_cons,
      List.foldl_nil, program, Function.update_apply]
    dsimp only
    by_cases hx : x = macAddr i 0 + k
    · have hin : macAddr i 0 ≤ x ∧ x < macAddr i 0 + (k + 1) := by omega
      rw [if_neg (by omega)] at ih
      rw [if_pos hx, ← hx, ih, if_pos hin, show x - macAddr i 0 = k by omega]
    · rw [if_neg hx, ih]
      congr 1
      exact propext ⟨fun h => by omega, fun h => by omega⟩

theorem macAddr_eq (i n : ℕ) : macAddr i n = macAddr i 0 + 2 * n := by
  rw [macAddr, macAddr, MAC_ADDRESS_NUM_REGS]
  omega

theorem copy_or {lo hi mac : ℕ} (hmac : mac < 2 ^ 48) : (lo ||| mac % 2 ^ 32)
    % 2 ^ 32 ||| ((hi ||| mac >>> 32) % 2 ^ 16) <<< 32
      = (lo % 2 ^ 32 ||| (hi % 2 ^ 16) <<< 32) ||| mac := by
  refine Nat.eq_of_testBit_eq fun b => ?_
  have hhigh : 48 ≤ b → mac.testBit b = false := fun hb =>
    Nat.testBit_lt_two_pow (hmac.trans_le (Nat.pow_le_pow_right (by decide) hb))
  simp only [Nat.testBit_or, Nat.testBit_mod_two_pow, Nat.testBit_shiftLeft, Nat.testBit_shiftRight]
  by_cases h32 : b < 32
  · simp [h32, Nat.not_le.2 h32]
  · by_cases h48 : b < 48
    · simp [h32, Nat.le_of_not_lt h32, show b - 32 < 16 by omega, show 32 + (b - 32) = b by omega]
    · simp [h32, show ¬ b - 32 < 16 by omega, hhigh (by omega)]

theorem copy_written {mac : ℕ} (hmac : mac < 2 ^ 48) (hn : 2 * n + 2 ≤ k) (hk : k ≤ 6) :
    getMacAddrN (((macWrites i mac).take k).foldl program mem) i n
      = getMacAddrN mem i n ||| mac := by
  rw [getMacAddrN, getMacAddrN, programmed _ _ _ _ k hk, programmed _ _ _ _ k hk, macAddr_eq i n,
    if_pos (by omega), if_pos (by omega), if_pos (by omega), if_neg (by omega)]
  exact copy_or hmac

theorem copy_unwritten {mac : ℕ} (hn : j = i ∧ k ≤ 2 * n ∨ j ≠ i ∧ n < 3) (hk : k ≤ 6) (hi : 1 ≤ i)
    (hj : 1 ≤ j) :
    getMacAddrN (((macWrites i mac).take k).foldl program mem) j n = getMacAddrN mem j n := by
  have hfar : macAddr j n + 1 < macAddr i 0 ∨ macAddr i 0 + k ≤ macAddr j n := by
    rw [macAddr, macAddr, MAC_ADDRESS_NUM_REGS, MAC_ADDRESS_NUM_COPIES]
    omega
  rw [getMacAddrN, getMacAddrN, programmed _ _ _ _ k hk, programmed _ _ _ _ k hk, if_neg (by omega),
    if_neg (by omega)]

/-! ## Requests -/

theorem mac_lt (r : Request) : r.mac < 2 ^ 48 := by
  have h := ofLeBytes_lt ((leBytes 2 r.a.toNat).reverse ++ (leBytes 4 r.b.toNat).reverse)
  simpa [Request.mac] using h

theorem checkParams_iff :
    otpMacsCheckParams r = true ↔ r.typesOk = true ∧ 1 ≤ r.number ∧ r.number ≤ 6 := by
  rw [otpMacsCheckParams, Bool.and_eq_true, Bool.not_eq_true', Bool.or_eq_false_iff,
    decide_eq_false_iff_not, decide_eq_false_iff_not, NUM_MAC_ADDRESSES]
  exact and_congr_right fun _ => by omega

theorem invoke_write (hcmd : r.cmd = .write) (hcheck : otpMacsCheckParams r = true)
    (hcut : r.cut = none) (hblank : getMacAddr mem r.number = some 0) :
    (invokeCommand mem r).1 = ((macWrites r.number r.mac).take 6).foldl program mem := by
  rw [List.take_of_length_le macWrites_length.le]
  simp [invokeCommand, hcmd, hcheck, otpMacsWriteHandler, hblank, hcut]

theorem invoke_cases (mem : Mem) (r : Request) :
    (invokeCommand mem r).1 = mem
      ∧ (∃ reply, (invokeCommand mem r).2 = some reply ∧ reply ≠ .written)
      ∨ r.cmd = .write ∧ otpMacsCheckParams r = true ∧ getMacAddr mem r.number = some 0
        ∧ ∃ k ≤ 6, (invokeCommand mem r).1 = ((macWrites r.number r.mac).take k).foldl program mem
          ∧ (r.cut = none ∧ k = 6 ∧ (invokeCommand mem r).2 = some .written
            ∨ ∃ c, r.cut = some c ∧ k = min c 6 ∧ (invokeCommand mem r).2 = none) := by
  have hlen := macWrites_length (i := r.number) (m := r.mac)
  unfold invokeCommand
  split_ifs with hbad hread
  · exact .inl ⟨rfl, _, rfl, by simp⟩
  · refine .inl ⟨rfl, _, rfl, ?_⟩
    unfold otpMacsReadHandler
    split <;> simp
  · rw [not_or] at hbad
    unfold otpMacsWriteHandler
    split
    · rename_i hblank
      have hcmd : r.cmd = .write := by cases hc : r.cmd <;> simp_all
      refine .inr ⟨hcmd, by simpa using hbad.2, hblank, ?_⟩
      split
      · rename_i hcut
        exact ⟨6, le_rfl, by rw [List.take_of_length_le (by omega)], .inl ⟨hcut, rfl, rfl⟩⟩
      · rename_i c hcut
        refine ⟨min c 6, by omega, ?_, .inr ⟨c, hcut, rfl, rfl⟩⟩
        rw [List.take_eq_take_iff.2 (show min (min c 6) _ = min c _ by omega)]
    · exact .inl ⟨rfl, _, rfl, by simp⟩

theorem getMacAddr_invoke (h : j ≠ r.number ∨ getMacAddr mem j ≠ some 0) (hj : 1 ≤ j ∧ j ≤ 6) :
    getMacAddr (invokeCommand mem r).1 j = getMacAddr mem j := by
  rcases invoke_cases mem r with ⟨hmem, -⟩ | ⟨-, -, hblank, k, hk, hmem, -⟩
  · rw [hmem]
  · have hne : j ≠ r.number := fun he => h.elim (absurd he) fun h => h (he ▸ hblank)
    have hi := (range_of_getMacAddr hblank).1
    rw [hmem, getMacAddr_eq hj, getMacAddr_eq hj, copy_unwritten (.inr ⟨hne, by omega⟩) hk hi hj.1,
      copy_unwritten (.inr ⟨hne, by omega⟩) hk hi hj.1,
      copy_unwritten (.inr ⟨hne, by omega⟩) hk hi hj.1]

theorem getMacAddr_written (h : getMacAddr mem i = some 0) (r : Request) :
    getMacAddr (((macWrites i r.mac).take 6).foldl program mem) i = some r.mac := by
  have hi := range_of_getMacAddr h
  rw [getMacAddr_eq hi, vote_eq_some] at h
  rw [getMacAddr_eq hi, copy_written (mac_lt r) (by omega) le_rfl,
    copy_written (mac_lt r) (by omega) le_rfl, copy_written (mac_lt r) (by omega) le_rfl,
    vote_eq_some]
  rcases h with ⟨h0, h1⟩ | ⟨h0, h1⟩ | ⟨h0, h1⟩ <;> simp [h0, h1]

/-! ## Runs -/

/-- A request names an interface that fits, writes no address of zeros, and is not cut where copies
disagree. -/
def Sound (mem : Mem) (r : Request) : Prop :=
  (1 ≤ r.number ∧ r.number ≤ 6 → r.interface.toNat < 2 ^ 8) ∧ (r.cmd = .write → r.mac ≠ 0)
    ∧ ∀ k ∈ r.cut, k ≤ 2 ∨ 6 ≤ k ∨ 4 ≤ k ∧ getMacAddrN mem r.number 0 ||| r.mac = r.mac

instance Sound.decidable (mem : Mem) (r : Request) : Decidable (Sound mem r) :=
  inferInstanceAs (Decidable (_ ∧ _))

/-- Each address is not written or can be read. -/
def Inv (mem : Mem) : Prop := ∀ i, 1 ≤ i ∧ i ≤ 6 →
  getMacAddrN mem i 1 = 0 ∧ getMacAddrN mem i 2 = 0 ∨ ∃ m, m ≠ 0 ∧ getMacAddr mem i = some m

theorem inv_blank : Inv blank.mem := fun _ _ => .inl (by simp [getMacAddrN, blank])

theorem Inv.programmed (h : Inv mem) (hblank : getMacAddr mem r.number = some 0) (hk : k ≤ 6)
    (hcut : k ≤ 2 ∨ 6 ≤ k ∨ 4 ≤ k ∧ getMacAddrN mem r.number 0 ||| r.mac = r.mac) {m : Mem}
    (hm : m = ((macWrites r.number r.mac).take k).foldl program mem) :
    (getMacAddr m r.number = some 0 ∧ getMacAddrN m r.number 1 = 0 ∧ getMacAddrN m r.number 2 = 0)
      ∨ getMacAddr m r.number = some r.mac := by
  have hi := range_of_getMacAddr hblank
  obtain ⟨h1, h2⟩ : getMacAddrN mem r.number 1 = 0 ∧ getMacAddrN mem r.number 2 = 0 := by
    rcases h _ hi with h | ⟨v, hv, hget⟩
    · exact h
    · rw [hblank, Option.some.injEq] at hget
      exact absurd hget.symm hv
  subst hm
  rcases hcut with hk2 | hk6 | ⟨hk4, hclean⟩
  · have hsame :
      ∀ n, 1 ≤ n → getMacAddrN (((macWrites r.number r.mac).take k).foldl program mem) r.number n
        = getMacAddrN mem r.number n :=
        fun n hn => copy_unwritten (.inl ⟨rfl, by omega⟩) hk hi.1 hi.1
    have h1' := (hsame 1 le_rfl).trans h1
    have h2' := (hsame 2 (by omega)).trans h2
    exact .inl ⟨by rw [getMacAddr_eq hi, vote_eq_some]; exact .inr (.inr ⟨h1', h2'⟩), h1', h2'⟩
  · obtain rfl : k = 6 := by omega
    exact .inr (getMacAddr_written hblank r)
  · refine .inr ?_
    rw [getMacAddr_eq hi, vote_eq_some]
    refine .inl ⟨?_, ?_⟩
    · rw [copy_written (mac_lt r) (by omega) hk, hclean]
    · rw [copy_written (mac_lt r) (by omega) hk, h1, Nat.zero_or]

theorem Sound.cut {k : ℕ} (h : Sound mem r)
    (hk : r.cut = none ∧ k = 6 ∨ ∃ c, r.cut = some c ∧ k = min c 6) :
    k ≤ 2 ∨ 6 ≤ k ∨ 4 ≤ k ∧ getMacAddrN mem r.number 0 ||| r.mac = r.mac := by
  rcases hk with ⟨-, rfl⟩ | ⟨c, hc, rfl⟩
  · exact .inr (.inl le_rfl)
  · rcases h.2.2 c hc with h | h | ⟨h, hclean⟩
    · exact .inl (by omega)
    · exact .inr (.inl (by omega))
    · exact .inr ((Nat.le_total 6 c).imp (fun h => by omega) fun h => ⟨by omega, hclean⟩)

theorem Inv.step (h : Inv mem) (hs : Sound mem r) : Inv (invokeCommand mem r).1 := by
  intro i hi
  rcases invoke_cases mem r with ⟨hmem, -⟩ | ⟨hcmd, -, hblank, k, hk, hmem, hcut⟩
  · rw [hmem]
    exact h i hi
  · by_cases hne : i = r.number
    · subst hne
      have hcut := hs.cut (hcut.imp (fun h => ⟨h.1, h.2.1⟩) fun ⟨c, h⟩ => ⟨c, h.1, h.2.1⟩)
      rcases h.programmed hblank hk hcut hmem with ⟨-, h1, h2⟩ | hget
      · exact .inl ⟨h1, h2⟩
      · exact .inr ⟨_, hs.2.1 hcmd, hget⟩
    · rcases h i hi with ⟨h1, h2⟩ | ⟨m, hm, hget⟩
      · have hi' := (range_of_getMacAddr hblank).1
        rw [hmem]
        exact .inl ⟨by rw [copy_unwritten (.inr ⟨hne, by omega⟩) hk hi' hi.1, h1],
          by rw [copy_unwritten (.inr ⟨hne, by omega⟩) hk hi' hi.1, h2]⟩
      · exact .inr ⟨m, hm, by rw [getMacAddr_invoke (.inl hne) hi, hget]⟩

/-- What a request does to addresses: one is written once, and the others are kept. -/
structure Once (mem : Mem) (r : Request) (mem' : Mem) : Prop where
  refused : ¬ (1 ≤ r.interface.toNat ∧ r.interface.toNat ≤ 6) →
    invokeCommand mem r = (mem, some .badParameters)
  written : (invokeCommand mem r).2 = some .written → ∀ r' :
    Request, r'.cmd = .read → r'.typesOk = true →
    r'.interface = r.interface →
    (invokeCommand mem' r').2 = some (.value (r.a.toNat % 2 ^ 16) r.b.toNat)
  others : ∀ j, 1 ≤ j ∧ j ≤ 6 → j ≠ r.interface.toNat →
    getMacAddr (invokeCommand mem r).1 j = getMacAddr mem j
  kept : ∀ j m, m ≠ 0 → getMacAddr mem j = some m → getMacAddr mem' j = some m
  repeated : (invokeCommand mem r).2 = none →
    getMacAddr (invokeCommand (invokeCommand mem r).1 { r with cut := none }).1 r.number
    = some r.mac

theorem getMacAddr_run {rs : List Request} {m : ℕ} (hm : m ≠ 0) (h : getMacAddr mem j = some m)
    (hs : Guarded Sound step mem rs)
    (hrun : exec step mem rs = .ok mem') : getMacAddr mem' j = some m := by
  refine exec_invariant (P := fun mem => getMacAddr mem j = some m)
    (fun mem r mem₁ hmem _ he => ?_) h hs hrun
  cases he
  have hne : getMacAddr mem j ≠ some 0 := by
    rw [hmem]
    simpa using hm
  rw [getMacAddr_invoke (.inr hne) (range_of_getMacAddr hmem), hmem]

theorem read_value (h : getMacAddr mem r.number = some r.mac) {r' : Request} (hcmd : r'.cmd = .read)
    (htypes : r'.typesOk = true) (hi : r'.interface = r.interface) :
    (invokeCommand mem r').2 = some (.value (r.a.toNat % 2 ^ 16) r.b.toNat) := by
  have hrange := range_of_getMacAddr h
  have hnumber : r'.number = r.number := by rw [Request.number, Request.number, hi]
  have hbytes :
      leBytes 6 r.mac = (leBytes 2 r.a.toNat).reverse ++ (leBytes 4 r.b.toNat).reverse := by
    have := leBytes_ofLeBytes ((leBytes 2 r.a.toNat).reverse ++ (leBytes 4 r.b.toNat).reverse)
    simpa [Request.mac] using this
  have hcheck : otpMacsCheckParams r' = true := checkParams_iff.2 ⟨htypes, hnumber ▸ hrange⟩
  have htake : ((leBytes 6 r.mac).take 2).reverse = leBytes 2 r.a.toNat := by simp [hbytes]
  have hdrop : ((leBytes 6 r.mac).drop 2).reverse = leBytes 4 r.b.toNat := by simp [hbytes]
  simp only [invokeCommand, hcmd, hcheck, otpMacsReadHandler, hnumber, h, htake, hdrop,
    ofLeBytes_leBytes_mod]
  simp [Nat.mod_eq_of_lt r.b.isLt]

/-- In every run of sound requests each is answered as it should be. -/
theorem macs_written_once (before : List Request) (r : Request) (after : List Request)
    (mem mem' : Mem) (hsound : Guarded Sound step blank.mem (before ++ r :: after))
    (hmem : exec step blank.mem before = .ok mem)
    (hend : exec step mem (r :: after) = .ok mem') : Once mem r mem' := by
  obtain ⟨hbefore, hrest⟩ := hsound.append hmem
  have hinv : Inv mem :=
    exec_invariant (fun _ _ _ h hg he => by cases he; exact h.step hg) inv_blank hbefore hmem
  have hs : Sound mem r := hrest.1
  obtain ⟨mem₁, hstep, hafter⟩ := exec_cons hend
  have hlater : Guarded Sound step mem₁ after := hrest.tail hstep
  cases hstep
  refine ⟨fun hout => ?_, fun hw r' => ?_, fun j hj hne => ?_, fun j m hm hget => ?_,
    fun hcut => ?_⟩
  · have hcheck : otpMacsCheckParams r = false := by
      by_contra hcheck
      have hnumber := (checkParams_iff.1 (by simpa using hcheck)).2
      have hsmall := hs.1 hnumber
      rw [Request.number, Nat.mod_eq_of_lt hsmall] at hnumber
      exact hout hnumber
    simp [invokeCommand, hcheck]
  · rcases invoke_cases mem r with ⟨-, reply, hreply, hne⟩ | ⟨hcmd, -, hblank, k, hk, hmem₁, hcut⟩
    · rw [hreply, Option.some.injEq] at hw
      exact absurd hw hne
    · rcases hcut with ⟨-, rfl, -⟩ | ⟨c, -, -, hnone⟩
      · have hget := getMacAddr_written hblank r
        rw [← hmem₁] at hget
        exact read_value (getMacAddr_run (hs.2.1 hcmd) hget hlater hafter)
      · rw [hnone] at hw
        cases hw
  · by_cases hj' : j = r.number
    · rcases invoke_cases mem r with ⟨hmem₁, -⟩ | ⟨-, -, hblank, -⟩
      · rw [hmem₁]
      · have hsmall := hs.1 (range_of_getMacAddr hblank)
        rw [hj', Request.number, Nat.mod_eq_of_lt hsmall] at hne
        exact absurd rfl hne
    · exact getMacAddr_invoke (.inl hj') hj
  · exact getMacAddr_run hm hget hrest hend
  · rcases invoke_cases mem r with ⟨-, reply, hreply, -⟩ | ⟨hcmd, hcheck, hblank, k, hk, hmem₁, hk'⟩
    · rw [hreply] at hcut
      cases hcut
    · have hks := hs.cut (hk'.imp (fun h => ⟨h.1, h.2.1⟩) fun ⟨c, h⟩ => ⟨c, h.1, h.2.1⟩)
      -- the repeated write programs all registers if the address is still blank, else none
      rcases hinv.programmed hblank hk hks hmem₁ with ⟨hget, -⟩ | hget
      · rw [invoke_write (r := { r with cut := none }) hcmd hcheck rfl hget]
        exact getMacAddr_written hget r
      · rw [getMacAddr_invoke (.inr (by rw [hget]; simpa using hs.2.1 hcmd))
          (range_of_getMacAddr hblank), hget]

/-- The address of the first interface is written. -/
def writeFirst (cut : Option ℕ) : Request := ⟨.write, true, 1, 0x0102, 0x03040506, cut⟩

theorem macs_written_once_repeated :
    ∃ mem mem', exec step blank.mem [writeFirst (some 1)] = .ok mem
      ∧ exec step mem [writeFirst none, ⟨.read, true, 1, 0, 0, none⟩] = .ok mem'
      ∧ Once mem (writeFirst none) mem' :=
  ⟨_, _, rfl, rfl, macs_written_once [writeFirst (some 1)] (writeFirst none) [⟨.read, true, 1, 0, 0,
    none⟩] _ _ (by decide +kernel) rfl rfl⟩

/-- A write that is cut after the third register cannot be repeated: the three copies differ. -/
theorem mac_lost : ∃ mem', exec step blank.mem [writeFirst (some 3)] = .ok mem'
    ∧ ¬ Once blank.mem (writeFirst (some 3)) mem' :=
  ⟨_, rfl, fun h => absurd (h.repeated (by decide +kernel)) (by decide +kernel)⟩

end Optee.OtpMacs
