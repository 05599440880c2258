import Optee.Lib.Bytes
import Optee.Pkcs11.Session

/-!
# Attributes of PKCS#11 objects

The lists of attributes of `ta/pkcs11/src/attributes.c`. A template is still the bytes that the
client sent.
-/

namespace Optee.Pkcs11

/-! ## Identifiers -/

def PKCS11_UNDEFINED_ID : ℕ := 0xFFFFFFFF

def PKCS11_CK_UNAVAILABLE_INFORMATION : ℕ := 0xFFFFFFFF

def PKCS11_CKA_CLASS : ℕ := 0x0000
def PKCS11_CKA_LABEL : ℕ := 0x0003
def PKCS11_CKA_VALUE : ℕ := 0x0011
def PKCS11_CKA_SENSITIVE : ℕ := 0x0103
def PKCS11_CKA_PRIVATE_EXPONENT : ℕ := 0x0123
def PKCS11_CKA_PRIME_1 : ℕ := 0x0124
def PKCS11_CKA_PRIME_2 : ℕ := 0x0125
def PKCS11_CKA_EXPONENT_1 : ℕ := 0x0126
def PKCS11_CKA_EXPONENT_2 : ℕ := 0x0127
def PKCS11_CKA_COEFFICIENT : ℕ := 0x0128
def PKCS11_CKA_EXTRACTABLE : ℕ := 0x0162
def PKCS11_CKA_WRAP_TEMPLATE : ℕ := 0x40000211
def PKCS11_CKA_UNWRAP_TEMPLATE : ℕ := 0x40000212
def PKCS11_CKA_DERIVE_TEMPLATE : ℕ := 0x40000213
def PKCS11_CKA_OPTEE_FLAGS_HIDDEN : ℕ := 0x80010000

def PKCS11_CKO_DATA : ℕ := 0x000
def PKCS11_CKO_CERTIFICATE : ℕ := 0x001
def PKCS11_CKO_PUBLIC_KEY : ℕ := 0x002
def PKCS11_CKO_PRIVATE_KEY : ℕ := 0x003
def PKCS11_CKO_SECRET_KEY : ℕ := 0x004

/-! ## Lists of attributes -/

def getId (attrs : Attrs) (id : ℕ) : ℕ :=
  match getAttribute attrs id with
  | some v => if v.length ≤ 4 then ofLeBytes v else PKCS11_UNDEFINED_ID
  | none => PKCS11_UNDEFINED_ID

def getClass (attrs : Attrs) : ℕ := getId attrs PKCS11_CKA_CLASS

def attributeIsHidden (id : ℕ) : Bool :=
  id &&& PKCS11_CKA_OPTEE_FLAGS_HIDDEN = PKCS11_CKA_OPTEE_FLAGS_HIDDEN

/-! ## Templates -/

def pkcs11AttrHasIndirectAttributes (id : ℕ) : Bool :=
  id ∈ [PKCS11_CKA_WRAP_TEMPLATE, PKCS11_CKA_UNWRAP_TEMPLATE, PKCS11_CKA_DERIVE_TEMPLATE]

/-- What `read_attr_advance` reads from the start of a string, and what is left of it. -/
def readAttrs : ℕ → List UInt8 → Attrs × List UInt8
  | 0, bytes => ([], bytes)
  | n + 1, bytes =>
    let size := ofLeBytes ((bytes.drop 4).take 4)
    if bytes.length < 8 + size then ([], bytes)
    else
      let (attrs, rest) := readAttrs n (bytes.drop (8 + size))
      ((ofLeBytes (bytes.take 4), (bytes.drop 8).take size) :: attrs, rest)

def attrBytes (a : ℕ × List UInt8) : List UInt8 := leBytes 4 a.1 ++ leBytes 4 a.2.length ++ a.2

end Optee.Pkcs11
