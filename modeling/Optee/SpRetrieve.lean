import Optee.Lib.Memory
import Optee.SpmcSp

/-!
# The response to a retrieve request

What `create_retrieve_response` of `core/arch/arm/kernel/spmc_sp_handler.c` writes to the TX buffer
of a partition: the descriptor of the transaction, one access descriptor, and the descriptor of the
memory region with its address ranges.
-/

namespace Optee.SpmcSp

open Ffa

/-- Where `dst_region` is. -/
def dstRegion (version11 : Bool) : ℕ := transactionSize version11 + 16

end Optee.SpmcSp
