import Optee.Lib.Bytes
import Optee.Result

/-!
# The cryptographic services of the secure storage

SHA-256, AES-GCM and the wrapping of a file encryption key are used through `crypto_hash_*`,
`crypto_authenc_*` and `tee_fs_fek_crypt`. What the storage relies on is that decryption undoes
encryption and keeps the length of the data.
-/

namespace Optee

abbrev Uuid := ByteVec 16

inductive OperationMode where
  | encrypt
  | decrypt
  deriving DecidableEq, Repr

structure Crypto where
  /-- The digest of what is fed after `crypto_hash_init`. -/
  hash : List UInt8 → ByteVec 32
  /-- AES-GCM: key, IV, additional data and plaintext give ciphertext and tag. -/
  enc : ByteVec 16 → ByteVec 16 → List UInt8 → List UInt8 → List UInt8 × ByteVec 16
  /-- `none` where the tag does not verify. -/
  dec : ByteVec 16 → ByteVec 16 → List UInt8 → List UInt8 → ByteVec 16 → Option (List UInt8)
  /-- `tee_fs_fek_crypt`, AES-ECB under the key of a TA. -/
  fekCrypt : Option Uuid → OperationMode → ByteVec 16 → ByteVec 16
  dec_enc : ∀ k iv aad p, dec k iv aad (enc k iv aad p).1 (enc k iv aad p).2 = some p
  enc_length : ∀ k iv aad p, (enc k iv aad p).1.length = p.length
  fekCrypt_decrypt : ∀ u k, fekCrypt u .decrypt (fekCrypt u .encrypt k) = k

/-- The low `n` bytes of a polynomial checksum. -/
def checksum (n : ℕ) (bs : List UInt8) : ByteVec n :=
  .ofList (leBytes n (bs.foldl (fun a b => a * 257 + b.toNat + 1) 1)) (leBytes_length n _)

def plainTag (k iv : ByteVec 16) (aad p : List UInt8) : ByteVec 16 :=
  if k = ByteVec.zero 16 ∧ iv = ByteVec.zero 16 ∧ aad = List.replicate 32 0 ∧ p.length = 1 then
    .ofList (1 :: p.headD 0 :: List.replicate 14 0) rfl
  else .ofList (2 :: (checksum 15 (k.toList ++ iv.toList ++ aad ++ p)).toList) (by simp)

def Crypto.plain : Crypto where
  hash bs := checksum 32 bs
  enc k iv aad p := (p, plainTag k iv aad p)
  dec k iv aad c tag := if plainTag k iv aad c = tag then some c else none
  fekCrypt _ _ k := k
  dec_enc k iv aad p := if_pos rfl
  enc_length _ _ _ _ := rfl
  fekCrypt_decrypt _ _ := rfl

end Optee
