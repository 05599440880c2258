import Optee.Proofs.HtreeCounter
import Optee.Proofs.HtreeDurable
import Optee.Proofs.HtreeAtomic
import Optee.Proofs.HtreeIntegrity
import Optee.Proofs.SvcEnum
import Optee.Proofs.TaLifetime
import Optee.Proofs.TaCycle
import Optee.Proofs.EntryStd
import Optee.Proofs.Mutex
import Optee.Proofs.SharedPages
import Optee.Proofs.Otp
import Optee.Proofs.Pkcs11.GetAttribute
import Optee.Proofs.Pkcs11.Initialize
import Optee.Proofs.ReeLayout
import Optee.Proofs.Rpmb.Replay
import Optee.Proofs.Rpmb.Fat
import Optee.Proofs.TeeMmFind
import Optee.Proofs.VmParamMap
import Optee.Proofs.VmTranslate
import Optee.Proofs.MemMap
import Optee.Proofs.MemLayout
import Optee.Proofs.LateMap
import Optee.Proofs.NsecDdr
import Optee.Proofs.PgtCache
import Optee.Proofs.TaTimeout
import Optee.Proofs.Notif
import Optee.Proofs.RxTx
import Optee.Proofs.Fobj
import Optee.Proofs.MsgParam
import Optee.Proofs.SpRetrieve
import Optee.Proofs.Adi.RuntimeLog
import Optee.Proofs.OtpMacs
import Optee.Proofs.TaElf
import Optee.Proofs.Digest
import Optee.Proofs.Adi.I2c
