import Optee.Lib.Memory
import Optee.Pkcs11.AttributeChecks

/-!
# Reading attributes

`entry_get_attribute_value` of `ta/pkcs11/src/object.c`, which answers in the template that the
client sent. The template was copied to memory that was allocated for it; what lies after it there
is something else. Sizes and addresses do not wrap around.
-/

namespace Optee.Pkcs11

/-- What `serialargs_alloc_get_attributes` has copied. -/
structure Template where
  attrsCount : ℕ
  body : List UInt8
  fits : body.length < 2 ^ 32

namespace Template

/-- The header, `struct pkcs11_object_head`. -/
def header (t : Template) : List UInt8 := leBytes 4 t.body.length ++ leBytes 4 t.attrsCount

def bytes (t : Template) : List UInt8 := t.header ++ t.body

end Template

/-- The memory from the template on, and the flags of the loop. -/
structure GetState where
  mem : ByteMem
  attrSensitive : Bool
  attrTypeInvalid : Bool
  bufferTooSmall : Bool

def GetState.setSize (s : GetState) (cur size : ℕ) : GetState :=
  { s with mem := s.mem.write (cur + 4) (leBytes 4 size) }

/-- The body of the loop, at an attribute. -/
def getAttributeAt (attrs : Attrs) (cur : ℕ) (s : GetState) : GetState :=
  let id := s.mem.u32 cur
  let size := s.mem.u32 (cur + 4)
  if attributeIsHidden id then
    { s.setSize cur PKCS11_CK_UNAVAILABLE_INFORMATION with attrTypeInvalid := true }
  else if pkcs11AttrHasIndirectAttributes id then { s with attrTypeInvalid := true }
  else if !attributeIsExportable attrs id then
    { s.setSize cur PKCS11_CK_UNAVAILABLE_INFORMATION with attrSensitive := true }
  else
    match getAttribute attrs id with
    | none => { s.setSize cur PKCS11_CK_UNAVAILABLE_INFORMATION with attrTypeInvalid := true }
    | some value =>
      if size < value.length then
        { s.setSize cur value.length with bufferTooSmall := s.bufferTooSmall || size ≠ 0 }
      else GetState.setSize { s with mem := s.mem.write (cur + 8) value } cur value.length

def getAttributes (attrs : Attrs) (stop : ℕ) : ℕ → ℕ → GetState → GetState
  | 0, _, s => s
  | n + 1, cur, s =>
    if cur < stop then
      getAttributes attrs stop n (cur + 8 + s.mem.u32 (cur + 4)) (getAttributeAt attrs cur s)
    else s

def GetState.rc (s : GetState) : Rc :=
  if s.bufferTooSmall then .bufferTooSmall
  else if s.attrTypeInvalid then .attributeTypeInvalid
  else if s.attrSensitive then .attributeSensitive
  else .ok

def Template.answer (t : Template) (attrs : Attrs) (beyond : ByteMem) : GetState :=
  getAttributes attrs (8 + t.body.length) t.body.length 8
    ⟨.ofList t.bytes beyond, false, false, false⟩

/-- `entry_get_attribute_value`: the return code, and what is written to the buffer of the
client. -/
def entryGetAttributeValue (state : SessionState) (attrs : Attrs) (t : Template) (beyond : ByteMem)
    (outSize : ℕ) : Rc × List UInt8 :=
  match checkAccessAttrsAgainstToken state attrs with
  | .ok => ((t.answer attrs beyond).rc, (t.answer attrs beyond).mem.read 0 outSize)
  | _ => (.objectHandleInvalid, [])

end Optee.Pkcs11
