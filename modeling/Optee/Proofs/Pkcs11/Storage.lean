import Optee.Proofs.Pkcs11.Session
import Optee.Proofs.Pkcs11.Token

/-!
# The token databases

What is in memory of a token is what is stored of it (`DbInv`). The TA starts on every storage whose
databases are whole (`Disk.Sound`), and each act of a command leaves them so, wherever the power is
cut.
-/

namespace Optee.Pkcs11

variable {cfg : Config} {disk : Disk} {ta ta' : Ta} {token t : ℕ} {l : List Act} {a : Act}

/-! ## Acts -/

/-- A database with counters in step and a list of objects. -/
def DbFile.Sound (cfg : Config) (f : DbFile) : Prop :=
  MainInv cfg f.main ∧ ∃ uuids, f.objs = some uuids ∧ uuids.Nodup

/-- All databases are sound. -/
def Disk.Sound (cfg : Config) (disk : Disk) : Prop := ∀ t f, disk.db t = some f → f.Sound cfg

/-- A write that keeps databases sound. -/
def Act.Sound (cfg : Config) : Act → Prop
  | .writeMain _ main _ => MainInv cfg main
  | .writeObjs _ uuids => uuids.Nodup
  | .createDb .. | .truncateDb _ => False
  | _ => True

/-- The write is for the token. -/
def Act.On (token : ℕ) : Act → Prop
  | .writeMain t .. | .writeObjs t _ | .createDb t _ | .truncateDb t | .verify t .. => t = token
  | _ => True

/-- The list of objects in storage after some writes. -/
def objsAfter (token : ℕ) (objs : Option (List ℕ)) (acts : List Act) : Option (List ℕ) :=
  acts.foldl (fun objs a => match a with
    | .writeObjs t uuids => if t = token then some uuids else objs
    | _ => objs) objs

theorem mainAfter_append {main : Main} {l' : List Act} :
    mainAfter token main (l ++ l') = mainAfter token (mainAfter token main l) l' :=
  List.foldl_append

theorem objsAfter_append {objs : Option (List ℕ)} {l' : List Act} :
    objsAfter token objs (l ++ l') = objsAfter token (objsAfter token objs l) l' :=
  List.foldl_append

theorem disk_acts_append {l' : List Act} : disk.acts (l ++ l') = (disk.acts l).acts l' :=
  List.foldl_append

theorem db_modifyDb {f : DbFile → DbFile} :
    (disk.modifyDb token f).db t = if t = token then (disk.db t).map f else disk.db t := by
  rw [Disk.modifyDb]
  dsimp only
  rw [Function.update_apply]
  by_cases ht : t = token
  · rw [if_pos ht, if_pos ht, ht]
  · rw [if_neg ht, if_neg ht]

theorem db_acts (t : ℕ) : ∀ (l : List Act) (disk : Disk), (∀ a ∈ l, a.Sound cfg) →
    (disk.acts l).db t = (disk.db t).map fun f => ⟨mainAfter t f.main l, objsAfter t f.objs l⟩
  | [], disk, _ => Option.map_id'.symm
  | a :: l, disk, h => by
    have ih := db_acts t l (disk.act a) fun b hb => h b (List.mem_cons_of_mem a hb)
    have ha := h a List.mem_cons_self
    refine ih.trans ?_
    simp only [mainAfter, objsAfter, List.foldl_cons]
    cases a with
    | writeMain t' | writeObjs t' =>
      simp only [Disk.act, db_modifyDb]
      by_cases ht : t = t'
      · simp only [ht, ↓reduceIte, Option.map_map]
        rfl
      · simp only [ht, Ne.symm ht, ↓reduceIte]
    | createDb => exact ha.elim
    | truncateDb => exact ha.elim
    | _ => rfl

theorem foldl_eq_self {α β : Type} {f : β → α → β} {x : β} :
    ∀ {l : List α}, (∀ a ∈ l, f x a = x) → l.foldl f x = x
  | [], _ => rfl
  | a :: l, h => by
    rw [List.foldl_cons, h a List.mem_cons_self]
    exact foldl_eq_self fun b hb => h b (List.mem_cons_of_mem a hb)

theorem mainAfter_of_ne (ht : t ≠ token) (h : ∀ a ∈ l, a.On token)
    {main : Main} : mainAfter t main l = main := by
  refine foldl_eq_self fun a ha => ?_
  cases a with
  | writeMain t' m resets => exact if_neg fun heq => ht (heq.symm.trans (h _ ha))
  | _ => rfl

theorem objsAfter_of_ne (ht : t ≠ token) (h : ∀ a ∈ l, a.On token) {objs : Option (List ℕ)} :
    objsAfter t objs l = objs := by
  refine foldl_eq_self fun a ha => ?_
  cases a with
  | writeObjs t' uuids => exact if_neg fun heq => ht (heq.symm.trans (h _ ha))
  | _ => rfl

theorem Disk.Sound.act (h : disk.Sound cfg) (ha : a.Sound cfg) : (disk.act a).Sound cfg := by
  intro t f hf
  have hmodify : ∀ token g, (∀ f : DbFile, f.Sound cfg → (g f).Sound cfg) →
      (disk.modifyDb token g).db t = some f → f.Sound cfg := by
    intro token g hg hf
    rw [db_modifyDb] at hf
    split_ifs at hf
    · obtain ⟨f', hf', rfl⟩ := Option.map_eq_some_iff.1 hf
      exact hg f' (h t f' hf')
    · exact h t f hf
  cases a with
  | writeMain token main resets =>
    exact hmodify token (fun f => { f with main }) (fun _ hs => ⟨ha, hs.2⟩) hf
  | writeObjs token uuids =>
    exact hmodify token (fun f => { f with objs := some uuids })
      (fun _ hs => ⟨hs.1, uuids, rfl, ha⟩) hf
  | createDb => exact ha.elim
  | truncateDb => exact ha.elim
  | _ => exact h t f hf

theorem Disk.Sound.acts (h : disk.Sound cfg)
    (hl : ∀ a ∈ l, a.Sound cfg) : (disk.acts l).Sound cfg := by
  induction l generalizing disk with
  | nil => exact h
  | cons a l ih =>
    exact ih (h.act (hl a List.mem_cons_self)) fun b hb => hl b (List.mem_cons_of_mem a hb)

/-! ## Start -/

/-- Storage has what memory has. -/
structure DbInv (cfg : Config) (ta : Ta) (disk : Disk) : Prop where
  sound : disk.Sound cfg
  stored : ∀ t < cfg.tokenCount, disk.db t = some ⟨(ta.tokens t).dbMain, some (ta.tokens t).dbObjs⟩
  objects : ∀ t < cfg.tokenCount, ((ta.tokens t).objects.map (·.uuid)).Perm (ta.tokens t).dbObjs
  addresses : ∀ t < cfg.tokenCount, ((ta.tokens t).objects.map (·.address)).Nodup

theorem DbInv.main (h : DbInv cfg ta disk) (ht : t < cfg.tokenCount) :
    MainInv cfg (ta.tokens t).dbMain :=
  (h.sound t _ (h.stored t ht)).1

theorem DbInv.nodup (h : DbInv cfg ta disk)
    (ht : t < cfg.tokenCount) : (ta.tokens t).dbObjs.Nodup := by
  obtain ⟨-, uuids, heq, hnodup⟩ := h.sound t _ (h.stored t ht)
  cases heq
  exact hnodup

theorem modifyToken_modifyToken (f g : Token → Token) :
    (ta.modifyToken token f).modifyToken token g = ta.modifyToken token fun t => g (f t) := by
  simp [Ta.modifyToken]

theorem addTokenObjects (token : ℕ) :
    ∀ (uuids : List ℕ) (ta : Ta), ∃ objs : List Object,
    uuids.foldl (addTokenObject token) ta =
      { ta.modifyToken token (fun t => { t with objects := objs ++ t.objects }) with
        next := ta.next + uuids.length } ∧
    objs.map (·.uuid) = uuids.reverse ∧ objs.map (·.address)
      = (List.range' ta.next uuids.length).reverse
  | [], ta => ⟨[], by simp [Ta.modifyToken], rfl, rfl⟩
  | uuid :: uuids, ta => by
    obtain ⟨objs, heq, huuids, haddresses⟩ :=
      addTokenObjects token uuids (addTokenObject token ta uuid)
    refine ⟨objs ++ [⟨ta.next, none, uuid⟩], ?_, by simp [huuids], ?_⟩
    · rw [List.foldl_cons, heq]
      simp [addTokenObject, Ta.modifyToken, Nat.add_assoc, Nat.add_comm 1]
    · have hnext : (addTokenObject token ta uuid).next = ta.next + 1 := rfl
      simp [haddresses, hnext, List.range'_succ]

/-- The writes that make the database of a token. -/
def initActs (disk : Disk) (token : ℕ) : List Act :=
  if (disk.db token).isSome then []
  else [.createDb token .fresh, .truncateDb token, .writeObjs token []]

theorem db_initActs (disk₀ disk : Disk) (token t : ℕ) : (disk₀.acts (initActs disk token)).db t =
    if t = token ∧ disk.db token = none then some ⟨.fresh, some []⟩ else disk₀.db t := by
  rw [initActs]
  cases hdb : disk.db token with
  | some f => simp [Disk.acts]
  | none =>
    by_cases ht : t = token <;> simp [Disk.acts, Disk.act, Disk.modifyDb, ht]

theorem db_flatMap_initActs (disk : Disk) (t : ℕ) : ∀ (l : List ℕ) (disk₀ : Disk),
    (disk₀.acts (l.flatMap (initActs disk))).db t =
      if t ∈ l ∧ disk.db t = none then some ⟨.fresh, some []⟩ else disk₀.db t
  | [], disk₀ => by simp [Disk.acts]
  | token :: l, disk₀ => by
    rw [List.flatMap_cons, disk_acts_append, db_flatMap_initActs disk t l, db_initActs]
    by_cases ht : t = token
    · subst ht
      by_cases hdb : disk.db t = none <;> simp [hdb]
    · simp [ht]

/-- A token as it is loaded from storage. -/
structure Loaded (disk : Disk) (t : ℕ) (before after : Token) : Prop where
  stored : (if disk.db t = none then some ⟨.fresh, some []⟩
    else disk.db t) = some ⟨after.dbMain, some after.dbObjs⟩
  objects : (after.objects.map (·.uuid)).Perm after.dbObjs
  addresses : (after.objects.map (·.address)).Nodup
  count : after.sessionCount = before.sessionCount
  rwCount : after.rwSessionCount = before.rwSessionCount

theorem initPersistentDb_ok (hdisk : disk.Sound cfg) (hobjs : (ta.tokens token).objects = []) :
    ∃ ta', initPersistentDb disk token ta = .ok (ta', initActs disk token) ∧
      ta'.sessions = ta.sessions ∧
      (∀ t, t ≠ token → ta'.tokens t = ta.tokens t)
        ∧ Loaded disk token (ta.tokens token) (ta'.tokens token) := by
  rw [initPersistentDb, initActs]
  cases hdb : disk.db token with
  | none =>
    refine ⟨_, rfl, rfl, fun t ht => by rw [tokens_modifyToken, if_neg ht], ?_⟩
    rw [tokens_modifyToken, if_pos rfl]
    exact ⟨by rw [if_pos hdb], by simp [hobjs], by simp [hobjs], rfl, rfl⟩
  | some f =>
    obtain ⟨main, objs⟩ := f
    obtain ⟨-, uuids, rfl, -⟩ := hdisk token _ hdb
    obtain ⟨objs, heq, huuids, haddresses⟩ := addTokenObjects token uuids
      (ta.modifyToken token fun t => { t with dbMain := main, dbObjs := uuids })
    rw [modifyToken_modifyToken] at heq
    have htokens := fun t => tokens_modifyToken ta token t fun t =>
      { t with dbMain := main, dbObjs := uuids, objects := objs ++ t.objects }
    refine ⟨_, congrArg (fun ta => Except.ok (ta, [])) heq, rfl,
      fun t ht => (htokens t).trans (if_neg ht), ?_⟩
    refine (htokens token).trans (if_pos rfl) ▸ ⟨by rw [hdb]; rfl, ?_, ?_, rfl, rfl⟩
    · rw [hobjs, List.append_nil, huuids]
      exact List.reverse_perm uuids
    · rw [hobjs, List.append_nil, haddresses]
      exact List.nodup_reverse.2 List.nodup_range'

theorem initTokens_ok (hdisk : disk.Sound cfg) :
    ∀ {l : List ℕ} {ta : Ta}, l.Nodup →
    (∀ t ∈ l, (ta.tokens t).objects = []) →
    ∃ ta', initTokens disk l ta = .ok (ta', l.flatMap (initActs disk)) ∧
      ta'.sessions = ta.sessions ∧
      (∀ t, t ∉ l → ta'.tokens t = ta.tokens t) ∧
      ∀ t ∈ l, Loaded disk t (ta.tokens t) (ta'.tokens t)
  | [], ta, _, _ => ⟨ta, rfl, rfl, fun _ _ => rfl, fun _ ht => by cases ht⟩
  | token :: l, ta, hnodup, hobjs => by
    obtain ⟨hnot, hnodup⟩ := List.nodup_cons.1 hnodup
    obtain ⟨ta₁, heq, hsessions, hother, hloaded⟩ := initPersistentDb_ok hdisk
      (hobjs token List.mem_cons_self)
    have hne : ∀ t ∈ l, t ≠ token := fun t ht heq => hnot (heq ▸ ht)
    have hobjs' : ∀ t ∈ l, (ta₁.tokens t).objects = [] := by
      intro t ht
      rw [hother t (hne t ht)]
      exact hobjs t (List.mem_cons_of_mem token ht)
    obtain ⟨ta₂, heq', hsessions', hother', hloaded'⟩ := initTokens_ok hdisk hnodup hobjs'
    refine ⟨ta₂, ?_, hsessions'.trans hsessions, fun t ht => ?_, fun t ht => ?_⟩
    · rw [initTokens, heq]
      change (initTokens disk l ta₁ >>= fun x => Except.ok (x.1, initActs disk token ++ x.2)) = _
      rw [heq']
      rfl
    · rw [List.mem_cons, not_or] at ht
      exact (hother' t ht.2).trans (hother t ht.1)
    · rcases List.mem_cons.1 ht with rfl | ht
      · rw [hother' t hnot]
        exact hloaded
      · rw [← hother t (hne t ht)]
        exact hloaded' t ht

theorem MainInv.fresh : MainInv cfg .fresh where
  so := ⟨by decide, by decide, by decide, by decide⟩
  le := by decide
  user h := by cases h
  salt h := by cases h
  identity _ := rfl

theorem pkcs11Init_ok (hdisk : disk.Sound cfg) :
    ∃ ta, pkcs11Init cfg disk = .ok (ta, (List.range cfg.tokenCount).flatMap (initActs disk)) ∧
      ta.sessions = [] ∧ (∀ t, (ta.tokens t).sessionCount = 0 ∧ (ta.tokens t).rwSessionCount = 0) ∧
      DbInv cfg ta (disk.acts ((List.range cfg.tokenCount).flatMap (initActs disk))) := by
  obtain ⟨ta, heq, hsessions, hother, hloaded⟩ := initTokens_ok hdisk
    (List.nodup_range : (List.range cfg.tokenCount).Nodup)
    (fun t _ => (rfl : (Ta.start.tokens t).objects = []))
  have hdb := fun t => db_flatMap_initActs disk t (List.range cfg.tokenCount) disk
  have hmem : ∀ t < cfg.tokenCount, t ∈ List.range cfg.tokenCount := fun t ht => List.mem_range.2 ht
  refine ⟨ta, heq, hsessions, fun t => ?_,
    ⟨fun t f hf => ?_, fun t ht => ?_, fun t ht => (hloaded t (hmem t ht)).objects,
    fun t ht => (hloaded t (hmem t ht)).addresses⟩⟩
  · by_cases ht : t ∈ List.range cfg.tokenCount
    · exact ⟨(hloaded t ht).count, (hloaded t ht).rwCount⟩
    · rw [hother t ht]
      exact ⟨rfl, rfl⟩
  · rw [hdb t] at hf
    split_ifs at hf
    · cases hf
      exact ⟨MainInv.fresh, [], rfl, List.nodup_nil⟩
    · exact hdisk t f hf
  · have hstored := (hloaded t (hmem t ht)).stored
    rw [hdb t]
    simpa [hmem t ht] using hstored

/-! ## Removal of the objects of a token -/

/-- The writes that remove all objects, one after the other. -/
def clearActs (token : ℕ) : List Object → List ℕ → List Act
  | [], _ => []
  | obj :: rest, uuids =>
    .writeObjs token (uuids.erase obj.uuid) :: .deleteFile obj.uuid :: clearActs token rest
      (uuids.erase obj.uuid)

theorem clearActs_sound : ∀ {l : List Object} {uuids : List ℕ}, uuids.Nodup →
    ∀ a ∈ clearActs token l uuids, a.Sound cfg
  | [], _, _, _, ha => by cases ha
  | _ :: _, uuids, h, a, ha => by
    rcases List.mem_cons.1 ha with rfl | ha
    · exact h.erase _
    rcases List.mem_cons.1 ha with rfl | ha
    · trivial
    · exact clearActs_sound (h.erase _) a ha

theorem clearActs_only : ∀ {l : List Object} {uuids : List ℕ}, ∀ a ∈ clearActs token l uuids,
    (∃ uuids', a = .writeObjs token uuids') ∨ ∃ uuid, a = .deleteFile uuid
  | [], _, _, ha => by cases ha
  | _ :: _, uuids, a, ha => by
    rcases List.mem_cons.1 ha with rfl | ha
    · exact .inl ⟨_, rfl⟩
    rcases List.mem_cons.1 ha with rfl | ha
    · exact .inr ⟨_, rfl⟩
    · exact clearActs_only a ha

theorem objsAfter_clearActs : ∀ {l : List Object} {uuids : List ℕ}, (l.map (·.uuid)).Perm uuids →
    objsAfter token (some uuids) (clearActs token l uuids) = some []
  | [], uuids, h => by
    rw [h.symm.eq_nil]
    rfl
  | obj :: l, uuids, h => by
    have hrest : (l.map (·.uuid)).Perm (uuids.erase obj.uuid) := by
      simpa using h.erase obj.uuid
    rw [clearActs, objsAfter, List.foldl_cons, List.foldl_cons]
    simp only [↓reduceIte]
    exact objsAfter_clearActs hrest

/-- Each object is taken off the list: no second try fails, and no first one after it has changed
the list in memory. -/
def Unregisters (fails : List UnregisterFailure) : Prop :=
  ∀ x ∈ fails, x.second = false ∧ x.call.val ≠ 3

instance : DecidablePred Unregisters := fun fails => inferInstanceAs (Decidable (∀ x ∈ fails, _))

theorem unregisterTwice_eq {fails : List UnregisterFailure} (h : Unregisters fails) (n token : ℕ)
    (dbObjs : List ℕ) (uuid : ℕ) :
    unregisterTwice fails n token dbObjs uuid =
      if uuid ∈ dbObjs then .ok (dbObjs.erase uuid, [.writeObjs token (dbObjs.erase uuid)])
      else .error .teePanic := by
  have hsecond : ∀ call, (⟨n, true, call⟩ : UnregisterFailure) ∉ fails := fun call hmem =>
    Bool.noConfusion (h _ hmem).1
  have hwrite : (⟨n, false, 3⟩ : UnregisterFailure) ∉ fails := fun hmem => (h _ hmem).2 rfl
  by_cases hmem : uuid ∈ dbObjs
  · simp only [unregisterTwice, unregisterPersistentObject, hsecond, hwrite, hmem,
      not_true_eq_false, if_false, if_true, decide_false, Bool.false_eq_true, Bool.or_self]
    split_ifs <;> simp [hmem]
  · simp [unregisterTwice, unregisterPersistentObject, hmem]

theorem removeObjects_eq {fails : List UnregisterFailure} (h : Unregisters fails) (token : ℕ) :
    ∀ (l : List Object) (n : ℕ) (ta : Ta), removeObjects fails token n l ta
      = removeObjects [] token n l ta
  | [], _, _ => rfl
  | obj :: l, n, ta => by
    have hnone : Unregisters [] := fun _ hx => by cases hx
    simp only [removeObjects, unregisterTwice_eq h, unregisterTwice_eq hnone,
      removeObjects_eq h token l]

theorem removeObjects_ok (token : ℕ) :
    ∀ (n : ℕ) (l : List Object) (ta : Ta), (ta.tokens token).objects = l →
    (l.map (·.address)).Nodup → (l.map (·.uuid)).Perm (ta.tokens token).dbObjs →
      (ta.tokens token).dbObjs.Nodup →
    removeObjects [] token n l ta
      = .ok (ta.modifyToken token fun t => { t with objects := [], dbObjs := [] },
      clearActs token l (ta.tokens token).dbObjs)
  | _, [], ta, hobjs, _, hperm, _ => by
    have htoken : ({ ta.tokens token with objects := [], dbObjs := [] } : Token)
        = ta.tokens token := by
      rw [← hobjs, ← hperm.symm.eq_nil]
    rw [removeObjects, Ta.modifyToken, htoken, Function.update_eq_self]
    rfl
  | n, obj :: l, ta, hobjs, haddr, hperm, hnodup => by
    obtain ⟨hnot, haddr⟩ := List.nodup_cons.1 haddr
    have hmem : obj.uuid ∈ (ta.tokens token).dbObjs := hperm.subset List.mem_cons_self
    have hfilter : (obj :: l).filter (·.address ≠ obj.address) = l := by
      rw [List.filter_cons_of_neg (by simp)]
      refine List.filter_eq_self.2 fun o ho => ?_
      have hne : o.address ≠ obj.address := fun heq => hnot (List.mem_map.2 ⟨o, ho, heq⟩)
      simpa using hne
    have hrest : (l.map (·.uuid)).Perm ((ta.tokens token).dbObjs.erase obj.uuid) := by
      simpa using hperm.erase obj.uuid
    have hremoved : obj.uuid ∉ (ta.tokens token).dbObjs.erase obj.uuid := hnodup.not_mem_erase
    rw [removeObjects, unregisterTwice_eq (fun _ hx => by cases hx), if_pos hmem]
    change (cleanupPersistentObject _ token obj >>= fun x =>
      removeObjects [] token (n + 1) l x.1 >>= fun y => Except.ok (y.1, _ ++ x.2 ++ y.2)) = _
    set ta₁ := ta.modifyToken token fun t =>
      { t with dbObjs := (ta.tokens token).dbObjs.erase obj.uuid } with hta₁
    have htoken₁ : ta₁.tokens token =
        { ta.tokens token with dbObjs := (ta.tokens token).dbObjs.erase obj.uuid } := by
      rw [hta₁, tokens_modifyToken, if_pos rfl]
    rw [cleanupPersistentObject, htoken₁, if_neg hremoved]
    set ta₂ := ta₁.modifyToken token fun t =>
      { t with objects := t.objects.filter (·.address ≠ obj.address) } with hta₂
    have htoken₂ : ta₂.tokens token =
        { ta.tokens token with
        dbObjs := (ta.tokens token).dbObjs.erase obj.uuid, objects := l } := by
      rw [hta₂, tokens_modifyToken, if_pos rfl, htoken₁, hobjs, hfilter]
    have ih :=
      removeObjects_ok token (n + 1) l ta₂ (by rw [htoken₂]) haddr (by rw [htoken₂]; exact hrest)
        (by rw [htoken₂]; exact hnodup.erase _)
    change (removeObjects [] token (n + 1) l ta₂ >>= fun x => Except.ok (x.1, _)) = _
    rw [ih, htoken₂, hta₂, hta₁, modifyToken_modifyToken, modifyToken_modifyToken]
    rfl

end Optee.Pkcs11
