import Mathlib.Tactic.NormNum
import Optee.Pkcs11.GetAttribute

/-!
# What reading attributes tells

Where the attributes of a template tile it, each is answered on its own (`getAttributes_tiled`).
When the command as a whole answers as it says is told by `get_attribute_value_answers_iff`.
-/

namespace Optee.Pkcs11

variable {attrs attrs' : Attrs} {a : ℕ × List UInt8} {t : Template} {beyond : ByteMem}

/-! ## Templates -/

namespace Template

/-- The attributes of a template, and the bytes behind them. -/
def entries (t : Template) : Attrs × List UInt8 := readAttrs t.body.length t.body

/-- The template is attributes and nothing else. -/
def Tiled (t : Template) : Prop := t.entries.2 = []

instance : Decidable t.Tiled := inferInstanceAs (Decidable (_ = _))

def single (a : ℕ × List UInt8) (h : (attrBytes a).length < 2 ^ 32) : Template :=
  ⟨1, attrBytes a, h⟩

end Template

/-- The identifier and the size have 32 bits. -/
def Fits (a : ℕ × List UInt8) : Prop := a.1 < 2 ^ 32 ∧ a.2.length < 2 ^ 32

@[simp] theorem length_attrBytes (a : ℕ × List UInt8) : (attrBytes a).length = 8 + a.2.length := by
  simp [attrBytes]
  omega

theorem readAttrs_eq : ∀ (n : ℕ) (bytes : List UInt8),
    bytes = (readAttrs n bytes).1.flatMap attrBytes ++ (readAttrs n bytes).2
      ∧ ∀ a ∈ (readAttrs n bytes).1, Fits a
  | 0, bytes => by simp [readAttrs]
  | n + 1, bytes => by
    simp only [readAttrs]
    split_ifs with h
    · simp
    · obtain ⟨ih, ihFits⟩ := readAttrs_eq n (bytes.drop (8 + ofLeBytes ((bytes.drop 4).take 4)))
      rw [Nat.not_lt] at h
      have hid : leBytes 4 (ofLeBytes (bytes.take 4)) = bytes.take 4 := by
        have := leBytes_ofLeBytes (bytes.take 4)
        rwa [List.length_take, min_eq_left (by omega)] at this
      have hsize : leBytes 4 (ofLeBytes ((bytes.drop 4).take 4)) = (bytes.drop 4).take 4 := by
        have := leBytes_ofLeBytes ((bytes.drop 4).take 4)
        rwa [List.length_take, List.length_drop, min_eq_left (by omega)] at this
      have hlen : ((bytes.drop 8).take (ofLeBytes ((bytes.drop 4).take 4))).length
          = ofLeBytes ((bytes.drop 4).take 4) := by
        rw [List.length_take, List.length_drop]
        omega
      have hlt : ∀ bs : List UInt8, bs.length ≤ 4 → ofLeBytes bs < 2 ^ 32 := fun bs hbs =>
        calc ofLeBytes bs < 256 ^ bs.length := ofLeBytes_lt bs
          _ ≤ 256 ^ 4 := Nat.pow_le_pow_right (by norm_num) hbs
          _ = 2 ^ 32 := by norm_num
      refine ⟨?_, ?_⟩
      · simp only [List.flatMap_cons, attrBytes, hid, hlen, hsize, List.append_assoc]
        rw [← ih]
        conv_lhs => rw [← List.take_append_drop 4 bytes, ← List.take_append_drop 4 (bytes.drop 4),
          List.drop_drop,
          ← List.take_append_drop (ofLeBytes ((bytes.drop 4).take 4)) (bytes.drop 8),
          List.drop_drop]
      · intro a ha
        rw [List.mem_cons] at ha
        rcases ha with rfl | ha
        · exact ⟨hlt _ (by simp), by rw [hlen]; exact hlt _ (by simp)⟩
        · exact ihFits a ha

theorem readAttrs_attrBytes (ha : Fits a) {n : ℕ} (hn : 0 < n) :
    readAttrs n (attrBytes a) = ([a], []) := by
  obtain ⟨k, rfl⟩ := Nat.exists_eq_succ_of_ne_zero hn.ne'
  have hid : (attrBytes a).take 4 = leBytes 4 a.1 := by simp [attrBytes]
  have hsize : ((attrBytes a).drop 4).take 4 = leBytes 4 a.2.length := by simp [attrBytes]
  have hdata : ((attrBytes a).drop 8) = a.2 := by
    simp [attrBytes, List.drop_append]
  have hof : ∀ v < 2 ^ 32, ofLeBytes (leBytes 4 v) = v :=
    fun v hv => ofLeBytes_leBytes (by norm_num; exact hv)
  have hnil : ∀ k, readAttrs k [] = ([], []) := fun k => by cases k <;> simp [readAttrs]
  simp only [readAttrs, hsize, hof _ ha.2, length_attrBytes, Nat.lt_irrefl, if_false, hid,
    hof _ ha.1, hdata, List.take_length]
  rw [List.drop_of_length_le (by simp), hnil]

/-! ## The loop -/

/-- The answer that the loop gives an attribute: the flag that it raises, and what stands in its
place. -/
def answerOf (attrs : Attrs) (a : ℕ × List UInt8) : Rc × List UInt8 :=
  let unavailable := leBytes 4 a.1 ++ leBytes 4 PKCS11_CK_UNAVAILABLE_INFORMATION ++ a.2
  if attributeIsHidden a.1 then (.attributeTypeInvalid, unavailable)
  else if pkcs11AttrHasIndirectAttributes a.1 then (.attributeTypeInvalid, attrBytes a)
  else if !attributeIsExportable attrs a.1 then (.attributeSensitive, unavailable)
  else
    match getAttribute attrs a.1 with
    | none => (.attributeTypeInvalid, unavailable)
    | some value =>
      if a.2.length < value.length then
        (if a.2 = [] then .ok else .bufferTooSmall, leBytes 4 a.1 ++ leBytes 4 value.length ++ a.2)
      else (.ok, leBytes 4 a.1 ++ leBytes 4 value.length ++ (value ++ a.2.drop value.length))

theorem length_answerOf (attrs : Attrs) (a : ℕ × List UInt8) :
    (answerOf attrs a).2.length = (attrBytes a).length := by
  rw [length_attrBytes, answerOf]
  split
  · simp
    omega
  split
  · simp
  split
  · simp
    omega
  split
  · simp
    omega
  · split <;> simp <;> omega

/-- Which of the three flags a code sets. -/
def GetState.raise (s : GetState) : Rc → GetState
  | .attributeSensitive => { s with attrSensitive := true }
  | .attributeTypeInvalid => { s with attrTypeInvalid := true }
  | .bufferTooSmall => { s with bufferTooSmall := true }
  | _ => s

/-- The state with other memory. -/
def GetState.withMem (s : GetState) (mem : ByteMem) : GetState := { s with mem }

@[simp] theorem GetState.withMem_mem (s : GetState) (mem : ByteMem) : (s.withMem mem).mem = mem :=
  rfl

@[simp] theorem GetState.withMem_rc (s : GetState) (mem : ByteMem) : (s.withMem mem).rc = s.rc :=
  rfl

theorem setSize_ofList (s : GetState) (pre x y z post : List UInt8) (beyond : ByteMem) (n : ℕ)
    (hx : x.length = 4) (hy : y.length = 4) :
    (s.withMem (.ofList (pre ++ (x ++ y ++ z) ++ post) beyond)).setSize pre.length n
      = s.withMem (.ofList (pre ++ (x ++ leBytes 4 n ++ z) ++ post) beyond) := by
  have h := ByteMem.write_ofList (pre ++ x) y (leBytes 4 n) (z ++ post) beyond
    (p := pre.length + 4) (by simp [hx]) (by simp [hy])
  simp only [List.append_assoc] at h ⊢
  simp only [GetState.setSize, GetState.withMem, h]

theorem getAttributeAt_ofList (attrs : Attrs) (s : GetState) (pre post : List UInt8)
    (beyond : ByteMem) (ha : Fits a) :
    getAttributeAt attrs pre.length (s.withMem (.ofList (pre ++ attrBytes a ++ post) beyond))
      = (s.raise (answerOf attrs a).1).withMem
        (.ofList (pre ++ (answerOf attrs a).2 ++ post) beyond) := by
  have hof : ∀ v < 2 ^ 32, ofLeBytes (leBytes 4 v) = v :=
    fun v hv => ofLeBytes_leBytes (by norm_num; exact hv)
  have hid : (ByteMem.ofList (pre ++ attrBytes a ++ post) beyond).u32 pre.length = a.1 := by
    have h :=
      ByteMem.u32_ofList pre (leBytes 4 a.1) (leBytes 4 a.2.length ++ a.2 ++ post) beyond
        rfl (by simp)
    simp only [attrBytes, List.append_assoc] at h ⊢
    rw [h, hof _ ha.1]
  have hsize : (ByteMem.ofList (pre ++ attrBytes a ++ post) beyond).u32 (pre.length + 4)
      = a.2.length := by
    have h := ByteMem.u32_ofList (pre ++ leBytes 4 a.1) (leBytes 4 a.2.length) (a.2 ++ post) beyond
      (p := pre.length + 4) (by simp) (by simp)
    simp only [attrBytes, List.append_assoc] at h ⊢
    rw [h, hof _ ha.2]
  have hset : ∀ (s : GetState) (z : List UInt8) (n : ℕ),
      (s.withMem (.ofList (pre ++ (leBytes 4 a.1 ++ leBytes 4 a.2.length ++ z) ++ post)
      beyond)).setSize
        pre.length n
        = s.withMem (.ofList (pre ++ (leBytes 4 a.1 ++ leBytes 4 n ++ z) ++ post) beyond) :=
    fun s z n => setSize_ofList s pre _ _ z post beyond n (by simp) (by simp)
  simp only [getAttributeAt, GetState.withMem_mem, hid, hsize, answerOf]
  by_cases hh : attributeIsHidden a.1 = true
  · rw [if_pos hh, if_pos hh, attrBytes, hset]
    rfl
  rw [if_neg hh, if_neg hh]
  by_cases hi : pkcs11AttrHasIndirectAttributes a.1 = true
  · rw [if_pos hi, if_pos hi]
    rfl
  rw [if_neg hi, if_neg hi]
  by_cases he : (!attributeIsExportable attrs a.1) = true
  · rw [if_pos he, if_pos he, attrBytes, hset]
    rfl
  rw [if_neg he, if_neg he]
  cases getAttribute attrs a.1 with
  | none =>
    simp only
    rw [attrBytes, hset]
    rfl
  | some value =>
    simp only
    by_cases hlt : a.2.length < value.length
    · rw [if_pos hlt, if_pos hlt, attrBytes, hset]
      by_cases hnil : a.2 = [] <;> simp [hnil, GetState.raise, GetState.withMem]
    · rw [if_neg hlt, if_neg hlt]
      -- The value is written over the start of the data, then the size.
      have hw := ByteMem.write_ofList (pre ++ leBytes 4 a.1 ++ leBytes 4 a.2.length)
        (a.2.take value.length) value (a.2.drop value.length ++ post) beyond (p := pre.length + 8)
        (by simp) (by simp; omega)
      have hsplit : pre ++ leBytes 4 a.1 ++ leBytes 4 a.2.length ++ a.2.take value.length
          ++ (a.2.drop value.length ++ post) = pre ++ attrBytes a ++ post := by
        simp [attrBytes, ← List.append_assoc (a.2.take _)]
      rw [hsplit] at hw
      have hs := hset s (value ++ a.2.drop value.length) value.length
      simp only [List.append_assoc] at hw hs ⊢
      simp only [GetState.withMem, hw, GetState.raise] at hs ⊢
      exact hs

theorem getAttributes_ofList (attrs : Attrs) (beyond : ByteMem) :
    ∀ (es : Attrs) (n : ℕ) (pre : List UInt8) (s : GetState), (∀ a ∈ es, Fits a) →
      (es.flatMap attrBytes).length ≤ n →
      getAttributes attrs (pre ++ es.flatMap attrBytes).length n pre.length
          (s.withMem (.ofList (pre ++ es.flatMap attrBytes) beyond))
        = (es.foldl (fun s a => s.raise (answerOf attrs a).1) s).withMem
          (.ofList (pre ++ es.flatMap fun a => (answerOf attrs a).2) beyond)
  | [], n, pre, s, _, _ => by
    cases n <;> simp [getAttributes]
  | a :: es, 0, pre, s, _, hn => by
    simp only [List.flatMap_cons, List.length_append, length_attrBytes] at hn
    omega
  | a :: es, n + 1, pre, s, hfits, hn => by
    rw [List.flatMap_cons, List.length_append, length_attrBytes] at hn
    have ha := hfits a List.mem_cons_self
    have hlt : pre.length < (pre ++ (a :: es).flatMap attrBytes).length := by
      simp
    have hsize : (ByteMem.ofList (pre ++ (a :: es).flatMap attrBytes) beyond).u32 (pre.length + 4)
        = a.2.length := by
      have h := ByteMem.u32_ofList (pre ++ leBytes 4 a.1) (leBytes 4 a.2.length)
        (a.2 ++ es.flatMap attrBytes) beyond (p := pre.length + 4) (by simp) (by simp)
      simp only [List.flatMap_cons, attrBytes, List.append_assoc] at h ⊢
      rw [h, ofLeBytes_leBytes (by norm_num; exact ha.2)]
    have hstep := getAttributeAt_ofList attrs s pre (es.flatMap attrBytes) beyond ha
    have hcur : pre.length + 8 + a.2.length = (pre ++ (answerOf attrs a).2).length := by
      rw [List.length_append, length_answerOf, length_attrBytes, Nat.add_assoc]
    have hstop : (pre ++ (a :: es).flatMap attrBytes).length
        = ((pre ++ (answerOf attrs a).2) ++ es.flatMap attrBytes).length := by
      simp only [List.flatMap_cons, List.length_append, length_answerOf, Nat.add_assoc]
    rw [getAttributes, if_pos hlt, GetState.withMem_mem, hsize, hcur, hstop]
    rw [List.flatMap_cons, ← List.append_assoc, hstep]
    rw [getAttributes_ofList attrs beyond es n _ _ (fun b hb => hfits b (List.mem_cons_of_mem _ hb))
      (by omega)]
    simp only [List.foldl_cons, List.flatMap_cons, List.append_assoc]

/-! ## Flags -/

/-- The codes that do not end the command. -/
def answerCodes : List Rc := [.ok, .attributeSensitive, .attributeTypeInvalid, .bufferTooSmall]

theorem answerOf_code (attrs : Attrs) (a : ℕ × List UInt8) :
    (answerOf attrs a).1 ∈ answerCodes := by
  simp only [answerOf]
  split
  · simp [answerCodes]
  split
  · simp [answerCodes]
  split
  · simp [answerCodes]
  split
  · simp [answerCodes]
  · split
    · split <;> simp [answerCodes]
    · simp [answerCodes]

theorem GetState.rc_mem (s : GetState) : s.rc ∈ answerCodes := by
  rw [GetState.rc]
  split_ifs <;> simp [answerCodes]

theorem GetState.rc_raise (s : GetState) {c : Rc} (hc : c ∈ answerCodes) :
    ((s.raise c).rc = s.rc ∨ (s.raise c).rc = c)
    ∧ ((s.raise c).rc = .ok ↔ s.rc = .ok ∧ c = .ok) := by
  obtain ⟨mem, sensitive, invalid, small⟩ := s
  simp only [answerCodes, List.mem_cons, List.not_mem_nil, or_false] at hc
  rcases hc with rfl | rfl | rfl | rfl <;> cases sensitive <;> cases invalid <;> cases small <;>
    simp [GetState.raise, GetState.rc]

theorem rc_foldl_raise (codes : List Rc) (hcodes : ∀ rc ∈ codes, rc ∈ answerCodes) (s : GetState) :
    (codes.foldl GetState.raise s).rc ∈ s.rc :: codes
      ∧ ((codes.foldl GetState.raise s).rc = .ok ↔ s.rc = .ok ∧ ∀ rc ∈ codes, rc = .ok) := by
  induction codes generalizing s with
  | nil => simp
  | cons c codes ih =>
    obtain ⟨ihMem, ihOk⟩ := ih (fun rc h => hcodes rc (List.mem_cons_of_mem _ h)) (s.raise c)
    obtain ⟨hc, hok⟩ := s.rc_raise (hcodes c List.mem_cons_self)
    refine ⟨?_, ?_⟩
    · rw [List.foldl_cons]
      simp only [List.mem_cons] at ihMem ⊢
      rcases ihMem with h | h
      · rcases hc with hc | hc <;> simp [h, hc]
      · exact Or.inr (Or.inr h)
    · rw [List.foldl_cons, ihOk, hok]
      simp [and_assoc]

/-! ## The command -/

/-- The code ends the command. -/
def Refuses (rc : Rc) : Prop := rc ∉ answerCodes

/-- What a client may know of an attribute. -/
def exported (attrs : Attrs) (id : ℕ) : Option (Option (List UInt8)) :=
  if attributeIsExportable attrs id then some (getAttribute attrs id) else none

/-- The five cases of the comment in `entry_get_attribute_value`. A hidden attribute is one that the
object does not have, and the pointer to an empty value is null. -/
def fiveCases (attrs : Attrs) (a : ℕ × List UInt8) : Rc × List UInt8 :=
  let unavailable := leBytes 4 a.1 ++ leBytes 4 PKCS11_CK_UNAVAILABLE_INFORMATION ++ a.2
  if !attributeIsHidden a.1 && !attributeIsExportable attrs a.1 then (.attributeSensitive,
    unavailable)
  else
    match if attributeIsHidden a.1 then none else getAttribute attrs a.1 with
    | none => (.attributeTypeInvalid, unavailable)
    | some value =>
      if a.2 = [] then (.ok, leBytes 4 a.1 ++ leBytes 4 value.length)
      else if value.length ≤ a.2.length then
        (.ok, leBytes 4 a.1 ++ leBytes 4 value.length ++ (value ++ a.2.drop value.length))
      else (.bufferTooSmall, unavailable)

/-- The room for an attribute that may be exported is too small. -/
def TooSmall (attrs : Attrs) (a : ℕ × List UInt8) : Prop :=
  attributeIsExportable attrs a.1 ∧ a.2 ≠ [] ∧ ∃ v, getAttribute attrs a.1 = some v
    ∧ a.2.length < v.length

/-- What the command should do with a template and a buffer for the answer. -/
structure AnswersOnlyAsked (state : SessionState) (attrs : Attrs) (t : Template)
    (outSize : ℕ) : Prop where
  /-- What is written depends on the template, and on what may be told of the attributes in it. -/
  depends : ∀ attrs' beyond beyond', checkAccessAttrsAgainstToken state attrs' = .ok →
    (∀ a ∈ t.entries.1, exported attrs' a.1 = exported attrs a.1) →
    (entryGetAttributeValue state attrs' t beyond' outSize).2
      = (entryGetAttributeValue state attrs t beyond outSize).2
  /-- Where the attributes do not tile the template, or the buffer does not match it, there is no
  answer, and nothing is written outside of the attributes. -/
  refuses : ¬ t.Tiled ∨ outSize ≠ t.bytes.length → ∀ beyond,
    Refuses (entryGetAttributeValue state attrs t beyond outSize).1
      ∧ ∀ p, p < 8 ∨ 8 + (t.entries.1.flatMap attrBytes).length ≤ p →
        (t.answer attrs beyond).mem p = ByteMem.ofList t.bytes beyond p
  /-- Otherwise each attribute is in one of the five cases, as if it were alone. -/
  cases : t.Tiled → outSize = t.bytes.length → ∀ beyond,
    (entryGetAttributeValue state attrs t beyond outSize).2
        = t.header ++ t.entries.1.flatMap (fun a => (fiveCases attrs a).2)
      ∧ ((entryGetAttributeValue state attrs t beyond outSize).1
        ∈ .ok :: t.entries.1.map fun a => (fiveCases attrs a).1)
      ∧ ((entryGetAttributeValue state attrs t beyond outSize).1 = .ok ↔
        ∀ a ∈ t.entries.1, (fiveCases attrs a).1 = .ok)
      ∧ ∀ a ∈ t.entries.1, ∀ h : (attrBytes a).length < 2 ^ 32,
        entryGetAttributeValue state attrs (.single a h) beyond (Template.single a h).bytes.length
          = ((fiveCases attrs a).1, (Template.single a h).header ++ (fiveCases attrs a).2)

variable {state : SessionState} {outSize : ℕ}

theorem entryGetAttributeValue_ok (hs : checkAccessAttrsAgainstToken state attrs = .ok) :
    entryGetAttributeValue state attrs t beyond outSize
      = ((t.answer attrs beyond).rc, (t.answer attrs beyond).mem.read 0 outSize) := by
  rw [entryGetAttributeValue, hs]

section

variable (attrs) (beyond) (ht : t.Tiled)
include ht

theorem answer_tiled : t.answer attrs beyond
      = (((t.entries.1.map fun a => (answerOf attrs a).1).foldl GetState.raise
          ⟨.ofList t.bytes beyond, false, false, false⟩).withMem
        (.ofList (t.header ++ t.entries.1.flatMap fun a => (answerOf attrs a).2) beyond)) := by
  obtain ⟨hbody, hfits⟩ := readAttrs_eq t.body.length t.body
  rw [show (readAttrs t.body.length t.body).2 = [] from ht, List.append_nil] at hbody
  have hheader : t.header.length = 8 := by simp [Template.header]
  have h := getAttributes_ofList attrs beyond t.entries.1 t.body.length t.header
    ⟨.ofList t.bytes beyond, false, false, false⟩ hfits (by rw [Template.entries, ← hbody])
  rw [Template.entries, ← hbody, ← Template.entries, List.length_append, hheader] at h
  rw [List.foldl_map]
  exact h

theorem read_answer : (t.answer attrs beyond).mem.read 0 t.bytes.length
      = t.header ++ t.entries.1.flatMap fun a => (answerOf attrs a).2 := by
  obtain ⟨hbody, -⟩ := readAttrs_eq t.body.length t.body
  rw [show (readAttrs t.body.length t.body).2 = [] from ht, List.append_nil] at hbody
  have hlen : ∀ es : Attrs, (es.flatMap fun a => (answerOf attrs a).2).length
      = (es.flatMap attrBytes).length := by
    intro es
    simp [List.length_flatMap, length_answerOf]
  rw [answer_tiled attrs beyond ht]
  have h :=
    ByteMem.read_ofList [] (t.header ++ t.entries.1.flatMap fun a => (answerOf attrs a).2) [] beyond
      (p := 0) (n := t.bytes.length) rfl (by
      rw [List.length_append, hlen, Template.bytes, List.length_append, Template.entries, ← hbody])
  simpa using h

theorem rc_answer :
    (t.answer attrs beyond).rc ∈ .ok :: t.entries.1.map (fun a => (answerOf attrs a).1)
      ∧ ((t.answer attrs beyond).rc = .ok ↔ ∀ a ∈ t.entries.1, (answerOf attrs a).1 = .ok) := by
  have h := rc_foldl_raise (t.entries.1.map fun a => (answerOf attrs a).1)
    (fun rc hrc => by
      obtain ⟨a, -, rfl⟩ := List.mem_map.1 hrc
      exact answerOf_code attrs a) ⟨.ofList t.bytes beyond, false, false, false⟩
  rw [answer_tiled attrs beyond ht, GetState.withMem_rc]
  refine ⟨h.1, h.2.trans ?_⟩
  rw [List.forall_mem_map]
  simp [GetState.rc]

end

theorem tiled_single (h : (attrBytes a).length < 2 ^ 32) (ha : Fits a) :
    (Template.single a h).entries = ([a], []) :=
  readAttrs_attrBytes ha (by simp [Template.single])

theorem entryGetAttributeValue_single (hs : checkAccessAttrsAgainstToken state attrs = .ok)
    (h : (attrBytes a).length < 2 ^ 32) (ha : Fits a) :
    entryGetAttributeValue state attrs (.single a h) beyond (Template.single a h).bytes.length
      = ((answerOf attrs a).1, (Template.single a h).header ++ (answerOf attrs a).2) := by
  have hentries := tiled_single h ha
  have htiled : (Template.single a h).Tiled := by rw [Template.Tiled, hentries]
  obtain ⟨hmem, hok⟩ := rc_answer attrs beyond htiled
  rw [entryGetAttributeValue_ok hs, read_answer attrs beyond htiled, hentries]
  rw [hentries] at hmem hok
  simp only [List.map_cons, List.map_nil, List.mem_cons, List.not_mem_nil, or_false,
    forall_eq] at hmem hok
  have hrc : (Template.answer (.single a h) attrs beyond).rc = (answerOf attrs a).1 := by
    rcases hmem with hrc | hrc
    · rw [hrc, hok.1 hrc]
    · exact hrc
  simp [hrc]

/-! ## The answers and the five cases -/

theorem answerOf_eq_fiveCases (hi : pkcs11AttrHasIndirectAttributes a.1 = false)
    (hs : ¬ TooSmall attrs a) : answerOf attrs a = fiveCases attrs a := by
  simp only [answerOf, fiveCases, hi, Bool.false_eq_true, if_false]
  cases hh : attributeIsHidden a.1 with
  | true => simp
  | false =>
    cases he : attributeIsExportable attrs a.1 with
    | false => simp
    | true =>
      simp only [Bool.false_eq_true, if_false, Bool.not_true, Bool.not_false, Bool.and_false]
      cases hv : getAttribute attrs a.1 with
      | none => rfl
      | some value =>
        simp only
        by_cases hnil : a.2 = []
        · simp only [hnil, List.length_nil, if_true, List.append_nil, List.drop_nil]
          cases value <;> simp
        · have hle : value.length ≤ a.2.length := by
            by_contra hlt
            exact hs ⟨he, hnil, value, hv, by omega⟩
          rw [if_neg (by omega), if_neg hnil, if_pos hle]

theorem exportable_of_indirect (attrs : Attrs) (hi : pkcs11AttrHasIndirectAttributes a.1 = true) :
    attributeIsHidden a.1 = false ∧ attributeIsExportable attrs a.1 = true := by
  have hid : a.1 = PKCS11_CKA_WRAP_TEMPLATE ∨ a.1 = PKCS11_CKA_UNWRAP_TEMPLATE
      ∨ a.1 = PKCS11_CKA_DERIVE_TEMPLATE := by
    simpa [pkcs11AttrHasIndirectAttributes] using hi
  have hh : attributeIsHidden a.1 = false := by
    rcases hid with h | h | h <;> rw [h] <;> decide
  have hs : a.1 ∉ secretIds := by
    rcases hid with h | h | h <;> rw [h] <;> decide
  refine ⟨hh, ?_⟩
  simp [attributeIsExportable, hh, hs]

theorem leBytes_unavailable_ne {n : ℕ} (hn : n < 2 ^ 32 - 1) (pre post : List UInt8) :
    pre ++ leBytes 4 n ++ post ≠ pre ++ leBytes 4 PKCS11_CK_UNAVAILABLE_INFORMATION ++ post := by
  intro h
  rw [List.append_left_inj, List.append_right_inj, leBytes_inj (by omega)
    (by simp [PKCS11_CK_UNAVAILABLE_INFORMATION])] at h
  simp only [PKCS11_CK_UNAVAILABLE_INFORMATION] at h
  omega

theorem answerOf_ne_fiveCases (hlen : ∀ v, getAttribute attrs a.1 = some v → v.length < 2 ^ 32 - 1)
    (ha : (attrBytes a).length < 2 ^ 32)
    (h : pkcs11AttrHasIndirectAttributes a.1 = true ∨ TooSmall attrs a) :
    answerOf attrs a ≠ fiveCases attrs a := by
  have hid : leBytes 4 a.1 ++ leBytes 4 a.2.length ++ a.2
      ≠ leBytes 4 a.1 ++ leBytes 4 PKCS11_CK_UNAVAILABLE_INFORMATION ++ a.2 :=
    leBytes_unavailable_ne (by rw [length_attrBytes] at ha; omega) _ _
  cases hi : pkcs11AttrHasIndirectAttributes a.1 with
  | true =>
    obtain ⟨hh, he⟩ := exportable_of_indirect attrs hi
    simp only [answerOf, fiveCases, hh, he, hi, Bool.false_eq_true, if_false, if_true,
      Bool.not_true, Bool.and_false]
    cases getAttribute attrs a.1 with
    | none => simpa [attrBytes] using hid
    | some value =>
      intro h
      have := congrArg Prod.fst h
      simp only at this
      split_ifs at this
  | false =>
    obtain ⟨he, hnil, value, hv, hlt⟩ := h.resolve_left (by simp [hi])
    have hh : attributeIsHidden a.1 = false := by
      by_contra hh
      simp [attributeIsExportable, hh] at he
    simp only [answerOf, fiveCases, hh, he, hi, hv, Bool.false_eq_true, if_false, Bool.not_true,
      Bool.and_false]
    rw [if_pos hlt, if_neg hnil, if_neg hnil, if_neg (by omega)]
    intro h
    exact leBytes_unavailable_ne (hlen value hv) _ _ (congrArg Prod.snd h)

theorem answerOf_congr (h : exported attrs' a.1 = exported attrs a.1) :
    answerOf attrs' a = answerOf attrs a := by
  simp only [exported] at h
  simp only [answerOf]
  cases he : attributeIsExportable attrs a.1 <;> cases he' : attributeIsExportable attrs' a.1 <;>
    simp_all

/-- The command answers only what was asked if and only if the attributes tile the template, the
buffer matches it, none of the attributes is a template, and none has a buffer that is too small. -/
theorem get_attribute_value_answers_iff (state : SessionState) (attrs : Attrs) (t : Template)
    (outSize : ℕ) (hs : checkAccessAttrsAgainstToken state attrs = .ok)
    (hattrs : (attrs.flatMap attrBytes).length < 2 ^ 32) :
    AnswersOnlyAsked state attrs t outSize ↔
      t.Tiled ∧ outSize = t.bytes.length
        ∧ ∀ a ∈ t.entries.1, pkcs11AttrHasIndirectAttributes a.1 = false ∧ ¬ TooSmall attrs a := by
  have hlen : ∀ id v, getAttribute attrs id = some v → v.length < 2 ^ 32 - 1 := by
    intro id v hv
    obtain ⟨l₁, l₂, rfl⟩ := List.append_of_mem (Heap.mem_of_lookup hv)
    simp only [List.flatMap_append, List.flatMap_cons, List.length_append,
      length_attrBytes] at hattrs
    omega
  have hfits : ∀ a ∈ t.entries.1, Fits a ∧ (attrBytes a).length < 2 ^ 32 := by
    intro a ha
    obtain ⟨hbody, hfits⟩ := readAttrs_eq t.body.length t.body
    refine ⟨hfits a ha, ?_⟩
    obtain ⟨l₁, l₂, hl⟩ := List.append_of_mem ha
    have hbound := congrArg List.length hbody
    rw [show (readAttrs t.body.length t.body).1 = _ from hl] at hbound
    simp only [List.flatMap_append, List.flatMap_cons, List.length_append] at hbound
    have := t.fits
    omega
  refine ⟨fun h => ?_, fun ⟨ht, hout, hcases⟩ => ?_⟩
  · -- Every return code is one of an answer, so a template or a buffer that is wrong is not
    -- refused.
    have hcode : ∀ beyond, ¬ Refuses (entryGetAttributeValue state attrs t beyond outSize).1 := by
      intro beyond
      rw [entryGetAttributeValue_ok hs, Refuses, not_not]
      exact GetState.rc_mem _
    have ht : t.Tiled := by
      by_contra ht
      exact hcode 0 (h.refuses (Or.inl ht) 0).1
    have hout : outSize = t.bytes.length := by
      by_contra hout
      exact hcode 0 (h.refuses (Or.inr hout) 0).1
    refine ⟨ht, hout, fun a ha => ?_⟩
    obtain ⟨hfit, hlt⟩ := hfits a ha
    have hsingle := (h.cases ht hout 0).2.2.2 a ha hlt
    have hanswer : answerOf attrs a = fiveCases attrs a := by
      rw [entryGetAttributeValue_single hs hlt hfit, Prod.mk.injEq,
        List.append_right_inj] at hsingle
      exact Prod.ext hsingle.1 hsingle.2
    by_contra hno
    refine answerOf_ne_fiveCases (hlen a.1) hlt ?_ hanswer
    by_contra hor
    rw [not_or] at hor
    exact hno ⟨by simpa using hor.1, hor.2⟩
  · have hanswer : ∀ a ∈ t.entries.1, answerOf attrs a = fiveCases attrs a :=
      fun a ha => answerOf_eq_fiveCases (hcases a ha).1 (hcases a ha).2
    subst hout
    refine ⟨?_, ?_, ?_⟩
    · intro attrs' beyond beyond' hs' hexp
      rw [entryGetAttributeValue_ok hs, entryGetAttributeValue_ok hs', read_answer attrs beyond ht,
        read_answer attrs' beyond' ht]
      simp only
      congr 1
      exact List.flatMap_congr fun a ha => by rw [answerOf_congr (hexp a ha)]
    · rintro (h | h)
      · exact absurd ht h
      · exact absurd rfl h
    · intro _ _ beyond
      obtain ⟨hmem, hok⟩ := rc_answer attrs beyond ht
      have hmap : t.entries.1.map (fun a => (answerOf attrs a).1)
          = t.entries.1.map fun a => (fiveCases attrs a).1 :=
        List.map_congr_left fun a ha => by rw [hanswer a ha]
      rw [entryGetAttributeValue_ok hs, read_answer attrs beyond ht]
      refine ⟨?_, hmap ▸ hmem, ?_, fun a ha hlt => ?_⟩
      · simp only
        congr 1
        exact List.flatMap_congr fun a ha => by rw [hanswer a ha]
      · rw [hok]
        exact forall₂_congr fun a ha => by rw [hanswer a ha]
      · rw [entryGetAttributeValue_single hs hlt (hfits a ha).1, hanswer a ha]

def labelled : Attrs := [(PKCS11_CKA_CLASS, leBytes 4 PKCS11_CKO_DATA), (PKCS11_CKA_LABEL, [76])]

/-- The label of an object is read. -/
theorem get_attribute_value_answers_label :
    AnswersOnlyAsked .roPublicSession labelled ⟨1, attrBytes (PKCS11_CKA_LABEL, [0]),
      by decide⟩ 17 := by
  refine (get_attribute_value_answers_iff _ _ _ _ (by decide) (by decide)).2 ⟨by decide,
    by decide, ?_⟩
  have hentries : (Template.mk 1 (attrBytes (PKCS11_CKA_LABEL, [0])) (by decide)).entries.1
      = [(PKCS11_CKA_LABEL, [0])] := by decide
  rw [hentries]
  simp only [List.mem_singleton, forall_eq]
  refine ⟨by decide, ?_⟩
  rintro ⟨-, -, v, hv, hlt⟩
  have : v = [76] := by
    rw [show getAttribute labelled PKCS11_CKA_LABEL = some [76] by decide] at hv
    exact (Option.some.inj hv).symm
  subst this
  simp at hlt

/-- A buffer that is longer than an empty template gets what lies behind the template in memory. -/
theorem get_attribute_value_leaks :
    checkAccessAttrsAgainstToken .roPublicSession labelled = .ok
      ∧ (labelled.flatMap attrBytes).length < 2 ^ 32
      ∧ (entryGetAttributeValue .roPublicSession labelled ⟨0, [], by decide⟩ (fun _ => 1) 12).2
        ≠ (entryGetAttributeValue .roPublicSession labelled ⟨0, [], by decide⟩ (fun _ => 2) 12).2
      ∧ ¬ AnswersOnlyAsked .roPublicSession labelled ⟨0, [], by decide⟩ 12 := by
  refine ⟨by decide, by decide, by decide, fun h => ?_⟩
  have := h.depends labelled (fun _ => 1) (fun _ => 2) (by decide) fun _ _ => rfl
  revert this
  decide

end Optee.Pkcs11
