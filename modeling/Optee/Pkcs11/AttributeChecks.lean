import Optee.Pkcs11.Attributes

/-!
# Checks of attributes

What `ta/pkcs11/src/pkcs11_attributes.c` checks about the attributes of an object before the object
is created, changed, used or read, and how it sets the value of a key.
-/

namespace Optee.Pkcs11

/-! ## New objects -/

def checkAccessAttrsAgainstToken (state : SessionState) (head : Attrs) : Rc :=
  if getClass head ∉ [PKCS11_CKO_SECRET_KEY, PKCS11_CKO_PRIVATE_KEY, PKCS11_CKO_PUBLIC_KEY,
      PKCS11_CKO_DATA, PKCS11_CKO_CERTIFICATE] then .keyFunctionNotPermitted
  else if objectIsPrivate head && (state.isPublic || state.isSo) then .userNotLoggedIn
  else .ok

/-! ## Reading -/

def secretIds : List ℕ :=
  [PKCS11_CKA_PRIVATE_EXPONENT, PKCS11_CKA_PRIME_1, PKCS11_CKA_PRIME_2, PKCS11_CKA_EXPONENT_1,
    PKCS11_CKA_EXPONENT_2, PKCS11_CKA_COEFFICIENT, PKCS11_CKA_VALUE]

/-- `attribute_is_exportable`. One variable is read into twice. -/
def attributeIsExportable (attrs : Attrs) (id : ℕ) : Bool :=
  if attributeIsHidden id then false
  else if getClass attrs ≠ PKCS11_CKO_SECRET_KEY ∧ getClass attrs ≠ PKCS11_CKO_PRIVATE_KEY then true
  else if id ∈ secretIds then
    match getAttribute attrs PKCS11_CKA_EXTRACTABLE with
    | some [e] =>
      if e = 0 then false
      else
        match getAttribute attrs PKCS11_CKA_SENSITIVE with
        | some [] => e ≠ 1
        | some [s] => s ≠ 1
        | _ => false
    | _ => false
  else true

end Optee.Pkcs11
