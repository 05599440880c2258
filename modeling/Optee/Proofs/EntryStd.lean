import Mathlib.Data.List.Nodup
import Mathlib.Tactic.Ring
import Optee.EntryStd

/-!
# References of a message

The references that a message has taken so far are kept in a ledger (`Ledger`). What is left in it
when the message is answered are those whose attributes have bits outside of the type
(`references_balance`): `cleanup_shm_refs` compares the whole word, where `copy_in_params` compares
the type alone.
-/

namespace Optee.EntryStd

variable {cfg : Config} {s s₀ s₁ s₂ : State} {a b : ℕ} {m : Mobj} {f : Mobj → Mobj} {taken : List ℕ}

/-! ## Objects by address -/

namespace State

theorem mem_addrs : a ∈ s.addrs ↔ ∃ m, s.find a = some m := by
  rw [← Option.isSome_iff_exists, find, List.find?_isSome, addrs, List.mem_map]
  simp

theorem find_addr (h : s.find a = some m) : m.addr = a := by simpa using List.find?_some h

theorem refc_of_find (h : s.find a = some m) : s.refc a = m.refc := by simp [refc, h]

theorem refc_eq_zero (h : a ∉ s.addrs) : s.refc a = 0 := by
  have hnone : s.find a = none := by
    by_contra hsome
    exact h (mem_addrs.2 (Option.ne_none_iff_exists'.1 hsome))
  simp [refc, hnone]

theorem find_of_mem (hs : s.addrs.Nodup) (h : m ∈ s.mobjs) : s.find m.addr = some m := by
  obtain ⟨m', hm'⟩ := mem_addrs.1 (List.mem_map_of_mem h)
  rw [hm', List.inj_on_of_nodup_map hs (List.mem_of_find?_eq_some hm') h (find_addr hm')]

theorem addrs_modify (hf : ∀ m, (f m).addr = m.addr) : (s.modify a f).addrs = s.addrs := by
  simp only [addrs, modify, List.map_map]
  refine List.map_congr_left fun m _ => ?_
  simp only [Function.comp_apply]
  split_ifs <;> simp [hf]

theorem find_modify (hf : ∀ m, (f m).addr = m.addr) :
    (s.modify a f).find b = if b = a then (s.find b).map f else s.find b := by
  have haddr : ∀ m : Mobj, (if m.addr = a then f m else m).addr = m.addr := fun m => by
    split_ifs <;> simp [hf]
  have hcomp : (fun m : Mobj => decide (m.addr = b)) ∘ (fun m => if m.addr = a then f m else m)
      = fun m => decide (m.addr = b) := by
    funext m
    simp only [Function.comp_apply, haddr]
  rw [find, modify, List.find?_map, hcomp]
  change (s.find b).map _ = _
  cases hb : s.find b with
  | none => simp
  | some m =>
    rw [Option.map_some, find_addr hb]
    split_ifs <;> rfl

theorem find_remove : (s.remove a).find b = if b = a then none else s.find b := by
  simp only [find, remove, List.find?_filter]
  split_ifs with h
  · subst h
    simp [List.find?_eq_none]
  · congr 1
    funext m
    by_cases hm : m.addr = b <;> simp [hm, h]

theorem find_push : (s.push m).find b = if b = m.addr then some m else s.find b := by
  simp only [find, push, List.find?_cons]
  by_cases h : b = m.addr
  · simp [h]
  · simp [h, Ne.symm h]

end State

/-- Objects have different addresses, and those that are counted are held. -/
structure WellFormed (s : State) : Prop where
  nodup : s.addrs.Nodup
  fresh : ∀ a ∈ s.addrs, a < s.next
  held : ∀ a m, s.find a = some m → m.kind ≠ .ffa → 0 < m.refc

/-- What a call changed so far: new objects of its own, and a reference for each address taken. -/
structure Ledger (s₀ s : State) (taken : List ℕ) : Prop where
  wf : WellFormed s
  refc : ∀ a, s.refc a = s₀.refc a + taken.count a
  addrs : ∃ made, s.addrs = made ++ s₀.addrs
  kind : ∀ a ∈ s₀.addrs, (s.find a).map Mobj.kind = (s₀.find a).map Mobj.kind
  own : ∀ a m, a ∉ s₀.addrs → s.find a = some m → m.kind = .regShm true

namespace Ledger

theorem refl (h : WellFormed s) : Ledger s s [] where
  wf := h
  refc a := by simp
  addrs := ⟨[], rfl⟩
  kind _ _ := rfl
  own a m ha hm := absurd (State.mem_addrs.2 ⟨m, hm⟩) ha

section

variable (h : Ledger s₀ s taken)
include h

theorem of_count {taken' : List ℕ}
    (hc : ∀ a, taken.count a = taken'.count a) : Ledger s₀ s taken' :=
  { h with refc := fun a => by rw [h.refc, hc] }

theorem modify {taken' : List ℕ} (hm : s.find a = some m)
    (haddr : ∀ m, (f m).addr = m.addr) (hkind : ∀ m, (f m).kind = m.kind)
    (hheld : m.kind ≠ .ffa → 0 < (f m).refc)
    (hcount : s₀.refc a + taken'.count a = (f m).refc)
    (hother : ∀ b ≠ a, taken'.count b = taken.count b) : Ledger s₀ (s.modify a f) taken' where
  wf := by
    refine ⟨by rw [State.addrs_modify haddr]; exact h.wf.nodup, ?_, fun b m' hb hk => ?_⟩
    · rw [State.addrs_modify haddr]
      exact h.wf.fresh
    · rw [State.find_modify haddr] at hb
      split_ifs at hb with hba
      · subst hba
        rw [hm] at hb
        cases hb
        exact hheld (hkind m ▸ hk)
      · exact h.wf.held b m' hb hk
  refc b := by
    by_cases hba : b = a
    · subst hba
      rw [hcount]
      exact State.refc_of_find (by rw [State.find_modify haddr, if_pos rfl, hm]; rfl)
    · rw [hother b hba, ← h.refc, State.refc, State.refc, State.find_modify haddr, if_neg hba]
  addrs := by
    rw [State.addrs_modify haddr]
    exact h.addrs
  kind b hb := by
    rw [← h.kind b hb, State.find_modify haddr]
    split_ifs with hba
    · rw [Option.map_map]
      exact congrArg (Option.map · _) (funext fun m => hkind m)
    · rfl
  own b m' hb hm' := by
    rw [State.find_modify haddr] at hm'
    split_ifs at hm' with hba
    · obtain ⟨m₁, hm₁, rfl⟩ := Option.map_eq_some_iff.1 hm'
      rw [hkind]
      exact h.own b m₁ hb hm₁
    · exact h.own b m' hb hm'

theorem find_eq (hm : m ∈ s.mobjs) : s.find m.addr = some m :=
  State.find_of_mem h.wf.nodup hm

theorem take (hm : m ∈ s.mobjs) (haddr : ∀ m, (f m).addr = m.addr)
    (hkind : ∀ m, (f m).kind = m.kind) (hrefc : (f m).refc = m.refc + 1) :
    Ledger s₀ (s.modify m.addr f) (m.addr :: taken) := by
  have hfind := h.find_eq hm
  refine h.modify hfind haddr hkind (fun _ => by omega) ?_ fun b hb => ?_
  · rw [hrefc, List.count_cons_self, ← State.refc_of_find hfind, h.refc]
    ring
  · exact List.count_cons_of_ne (Ne.symm hb)

theorem get (hm : m ∈ s.mobjs) (hk : m.kind ≠ .ffa) :
    ∃ s', mobjGet s m = .ok s' ∧ Ledger s₀ s' (m.addr :: taken) := by
  have hpos := h.wf.held _ _ (h.find_eq hm) hk
  refine ⟨_, if_neg (by omega), h.take hm ?_ ?_ ?_⟩ <;> intros <;> rfl

theorem getFfa (hm : m ∈ s.mobjs) (offs : ℕ) :
    Ledger s₀ (mobjFfaGet s m offs) (m.addr :: taken) := by
  rw [mobjFfaGet]
  split_ifs with hz
  · refine h.take hm (fun _ => rfl) (fun _ => rfl) ?_
    rw [hz]
    rfl
  · exact h.take hm (fun _ => rfl) (fun _ => rfl) rfl

theorem subset (ha : a ∈ s₀.addrs) : a ∈ s.addrs := by
  obtain ⟨made, hmade⟩ := h.addrs
  rw [hmade]
  exact List.mem_append_right _ ha

theorem push (ha : m.addr = s.next) (hk : m.kind = .regShm true)
    (hr : m.refc = 1) : Ledger s₀ (s.push m) (m.addr :: taken) where
  wf := by
    refine ⟨List.nodup_cons.2 ⟨fun hmem => ?_, h.wf.nodup⟩, fun b hb => ?_, fun b m' hb hk' => ?_⟩
    · have := h.wf.fresh _ hmem
      omega
    · have hnext : (s.push m).next = s.next + 1 := rfl
      rcases List.mem_cons.1 hb with rfl | hb
      · omega
      · have := h.wf.fresh b hb
        omega
    · rw [State.find_push] at hb
      split_ifs at hb
      · cases hb
        omega
      · exact h.wf.held b m' hb hk'
  refc b := by
    by_cases hb : b = m.addr
    · subst hb
      have hnew : m.addr ∉ s₀.addrs := fun hmem => by
        have := h.wf.fresh _ (h.subset hmem)
        omega
      have hfree : m.addr ∉ s.addrs := fun hmem => by
        have := h.wf.fresh _ hmem
        omega
      have hold := h.refc m.addr
      rw [State.refc_eq_zero hfree, State.refc_eq_zero hnew] at hold
      rw [State.refc_of_find (by rw [State.find_push, if_pos rfl]), State.refc_eq_zero hnew,
        List.count_cons_self]
      omega
    · rw [State.refc, State.find_push, if_neg hb, List.count_cons_of_ne (Ne.symm hb)]
      exact h.refc b
  addrs := by
    obtain ⟨made, hmade⟩ := h.addrs
    exact ⟨m.addr :: made, congrArg (m.addr :: ·) hmade⟩
  kind b hb := by
    have hlt := h.wf.fresh b (h.subset hb)
    rw [State.find_push, if_neg (by omega)]
    exact h.kind b hb
  own b m' hb hm' := by
    rw [State.find_push] at hm'
    split_ifs at hm'
    · cases hm'
      exact hk
    · exact h.own b m' hb hm'

theorem kind_of_unheld (hs₀ : WellFormed s₀) (hm : s.find a = some m) (hz : s₀.refc a = 0)
    : m.kind = .ffa ∨ a ∉ s₀.addrs ∧ m.kind = .regShm true := by
  by_cases ha : a ∈ s₀.addrs
  · obtain ⟨m₀, hm₀⟩ := State.mem_addrs.1 ha
    have hk := h.kind a ha
    rw [hm, hm₀] at hk
    by_contra hne
    have := hs₀.held a m₀ hm₀ (fun hf => hne (.inl ((Option.some.inj hk).trans hf)))
    rw [State.refc_of_find hm₀] at hz
    omega
  · exact .inr ⟨ha, h.own a m ha hm⟩

end

theorem remove (h : Ledger s₀ s (a :: taken)) (ha : a ∉ s₀.addrs) (hlast : taken.count a = 0) :
    Ledger s₀ (s.remove a) taken where
  wf := by
    have hsub : (s.remove a).addrs.Sublist s.addrs := List.filter_sublist.map _
    refine ⟨hsub.nodup h.wf.nodup, fun b hb => h.wf.fresh b (hsub.subset hb), fun b m' hb hk => ?_⟩
    rw [State.find_remove] at hb
    split_ifs at hb
    exact h.wf.held b m' hb hk
  refc b := by
    rw [State.refc, State.find_remove]
    split_ifs with hb
    · subst hb
      rw [hlast, State.refc_eq_zero ha]
      rfl
    · rw [← List.count_cons_of_ne (Ne.symm hb)]
      exact h.refc b
  addrs := by
    obtain ⟨made, hmade⟩ := h.addrs
    have hfilter : (s.remove a).addrs = s.addrs.filter (· ≠ a) := by
      rw [State.addrs, State.remove, State.addrs, List.filter_map]
      rfl
    have hkept : s₀.addrs.filter (· ≠ a) = s₀.addrs :=
      List.filter_eq_self.2 fun b hb => decide_eq_true fun hba => ha (hba ▸ hb)
    exact ⟨made.filter (· ≠ a), by rw [hfilter, hmade, List.filter_append, hkept]⟩
  kind b hb := by
    rw [State.find_remove, if_neg fun hba : b = a => ha (hba ▸ hb)]
    exact h.kind b hb
  own b m' hb hm' := by
    rw [State.find_remove] at hm'
    split_ifs at hm'
    exact h.own b m' hb hm'

theorem put (h : Ledger s₀ s (a :: taken)) (hs₀ : WellFormed s₀) :
    ∃ s', mobjPut s (some a) = .ok s' ∧ Ledger s₀ s' taken := by
  have hrefc := h.refc a
  rw [List.count_cons_self] at hrefc
  obtain ⟨m, hm⟩ : ∃ m, s.find a = some m := State.mem_addrs.1 <| by
    by_contra hne
    rw [State.refc_eq_zero hne] at hrefc
    omega
  rw [State.refc_of_find hm] at hrefc
  have hput : ∀ n, s₀.refc a + taken.count a = n → (m.kind ≠ .ffa → 0 < n) →
      Ledger s₀ (s.modify a (·.setRefc n)) taken := fun n hn hpos =>
    h.modify hm (fun _ => rfl) (fun _ => rfl) hpos hn
      fun b hb => (List.count_cons_of_ne (Ne.symm hb)).symm
  simp only [mobjPut, hm]
  rw [if_neg (by omega)]
  by_cases hone : m.refc = 1
  · rw [if_pos hone]
    refine ⟨_, rfl, ?_⟩
    rw [mobjFree, State.find_addr hm]
    rcases h.kind_of_unheld hs₀ hm (by omega) with hk | ⟨ha, hk⟩
    · rw [hk]
      exact hput 0 (by omega) (fun hne => absurd hk hne)
    · rw [hk]
      exact h.remove ha (by omega)
  · rw [if_neg hone]
    exact ⟨_, rfl, hput _ (by omega) (fun _ => by omega)⟩

end Ledger

/-! ## One parameter -/

/-- The object that a parameter refers to. -/
def TaParam.refs : TaParam → List ℕ
  | .zero | .value _ _ => []
  | .memref mem => mem.mobj.toList

/-- A parameter refers to memory that can be found, or to pages that an object can be made of. -/
def Param.refers (cfg : Config) (s : State) (p : Param) : Bool :=
  !p.isMeta &&
    match p.type with
    | .rmem =>
      if cfg.ffa then !p.fmemNull cfg && (s.ffaShm p.w2 p.internalOffs).isSome
      else cfg.dynShm && (s.regShm p.w2).isSome
    | .tmem =>
      !cfg.ffa && p.bufPtr cfg ≠ 0 &&
        if p.noncontig then
          cfg.dynShm && p.pagesOk && (cfg.noncontigPages (p.bufPtr cfg) (p.size cfg)).isSome
        else (s.area cfg (p.bufPtr cfg) (p.size cfg)).isSome
    | .none | .value | .unknown => false

theorem mem_of_ffaShm {cookie offs : ℕ} (h : s.ffaShm cookie offs = some m) : m ∈ s.mobjs := by
  rw [State.ffaShm] at h
  split_ifs at h
  exact List.mem_of_find?_eq_some (Option.filter_eq_some_iff.1 h).1

theorem mem_of_regShm {cookie : ℕ}
    (h : s.regShm cookie = some m) : m ∈ s.mobjs ∧ m.kind ≠ .ffa := by
  refine ⟨List.mem_of_find?_eq_some h, fun hk => ?_⟩
  simpa [hk] using List.find?_some h

theorem mem_of_area {pa sz : ℕ} (h : s.area cfg pa sz = some m) : m ∈ s.mobjs ∧ m.kind ≠ .ffa := by
  refine ⟨List.mem_of_find?_eq_some h, fun hk => ?_⟩
  simpa [hk] using List.find?_some h

/-- A parameter was set and has a reference to its object, if it refers to one. -/
structure Sets (s₀ : State) (taken : List ℕ) (refers : Bool) (r : TeeResult Setting) : Prop where
  spec : ∃ s mem res, r = .ok (s, mem, res) ∧ Ledger s₀ s (mem.mobj.toList ++ taken) ∧
    mem.mobj.isSome = refers

section Setting

variable {p : Param} (h : Ledger s₀ s taken) (hs₀ : WellFormed s₀)
include h

theorem sets_null (res : TeeResult Unit) : Sets s₀ taken false (.ok (s, .null, res)) :=
  ⟨s, .null, res, rfl, h, rfl⟩

theorem setFmemParam_sets : Sets s₀ taken
    (!p.fmemNull cfg && (s.ffaShm p.w2 p.internalOffs).isSome) (setFmemParam cfg s p) := by
  rw [setFmemParam]
  cases hn : p.fmemNull cfg with
  | true => exact sets_null h _
  | false =>
    cases hf : s.ffaShm p.w2 p.internalOffs with
    | none => exact sets_null h _
    | some m => exact ⟨_, _, _, rfl, h.getFfa (mem_of_ffaShm hf) _, rfl⟩

theorem setRmemParam_sets : Sets s₀ taken (s.regShm p.w2).isSome (setRmemParam cfg s p) := by
  rw [setRmemParam]
  cases hf : s.regShm p.w2 with
  | none => exact sets_null h _
  | some m =>
    obtain ⟨hm, hk⟩ := mem_of_regShm hf
    obtain ⟨s', hs', hl⟩ := h.get hm hk
    simp only [hs']
    exact ⟨_, _, _, rfl, hl, rfl⟩

theorem setTmemParam_sets : Sets s₀ taken
    (p.bufPtr cfg ≠ 0 &&
      if p.noncontig then
        cfg.dynShm && p.pagesOk && (cfg.noncontigPages (p.bufPtr cfg) (p.size cfg)).isSome
      else (s.area cfg (p.bufPtr cfg) (p.size cfg)).isSome) (setTmemParam cfg s p) := by
  rw [setTmemParam]
  by_cases hz : p.bufPtr cfg = 0
  · simp only [hz, ↓reduceIte]
    exact sets_null h _
  simp only [hz, ↓reduceIte, ne_eq, not_false_eq_true, decide_true, Bool.true_and]
  cases p.noncontig with
  | true =>
    simp only [↓reduceIte]
    cases cfg.dynShm && p.pagesOk with
    | false => exact sets_null h _
    | true =>
      simp only [↓reduceIte, Bool.true_and]
      cases cfg.noncontigPages (p.bufPtr cfg) (p.size cfg) with
      | none => exact sets_null h _
      | some n => exact ⟨_, _, _, rfl, h.push rfl rfl rfl, rfl⟩
  | false =>
    simp only [Bool.false_eq_true, ↓reduceIte]
    cases hf : s.area cfg (p.bufPtr cfg) (p.size cfg) with
    | none => exact sets_null h _
    | some m =>
      obtain ⟨hm, hk⟩ := mem_of_area hf
      obtain ⟨s', hs', hl⟩ := h.get hm hk
      simp only [hs']
      exact ⟨_, _, _, rfl, hl, rfl⟩

end Setting

/-- A parameter was copied in, with a reference that can be released again. -/
def Copies (cfg : Config) (s₀ : State) (taken : List ℕ) (attr : ℕ) (refers : Bool)
    (r : TeeResult (State × TaParam × TeeResult Unit)) : Prop :=
  ∃ s tp res, r = .ok (s, tp, res) ∧ Ledger s₀ s (tp.refs ++ taken) ∧
    (tp.refs ≠ [] ↔ refers) ∧ (releases cfg attr → ∃ a, tp.mobj = .ok a)

theorem Sets.copies {attr : ℕ} {refers : Bool} {r : TeeResult Setting}
    (h : Sets s₀ taken refers r) :
    Copies cfg s₀ taken attr refers (r.map fun (s, mem, res) => (s, TaParam.memref mem, res)) := by
  obtain ⟨s, mem, res, rfl, hl, rfl⟩ := h
  refine ⟨s, .memref mem, res, rfl, hl, ?_, fun _ => ⟨_, rfl⟩⟩
  rw [TaParam.refs]
  cases mem.mobj <;> simp

theorem copies_zero {attr : ℕ} (h : Ledger s₀ s taken) (res : TeeResult Unit) :
    Copies cfg s₀ taken attr false (.ok (s, .zero, res)) :=
  ⟨s, .zero, res, rfl, h, by simp [TaParam.refs], fun _ => ⟨_, rfl⟩⟩

theorem copies_value {attr x y : ℕ} (h : Ledger s₀ s taken) (ht : releases cfg attr = false) :
    Copies cfg s₀ taken attr false (.ok (s, .value x y, .ok ())) :=
  ⟨s, .value x y, .ok (), rfl, h, by simp [TaParam.refs], fun hr => by simp [ht] at hr⟩

theorem releases_eq_false {attr : ℕ} (cfg : Config)
    (h : 256 ≤ attr) : releases cfg attr = false := by
  have hother : ParamType.ofAttr attr = .unknown := by
    rw [ParamType.ofAttr] <;> omega
  rw [releases, hother]
  rfl

theorem releases_eq {p : Param} (h : p.attr < 256) : releases cfg p.attr = p.type.released cfg := by
  rw [releases, Param.type, Param.masked, Nat.mod_eq_of_lt h]

theorem copyInParam_copies (cfg : Config) (h : Ledger s₀ s taken) (p : Param) :
    Copies cfg s₀ taken p.attr (p.refers cfg s) (copyInParam cfg s p) := by
  rw [copyInParam, Param.refers]
  cases p.isMeta with
  | true => exact copies_zero h _
  | false =>
    cases ht : p.type with
    | none => exact copies_zero h _
    | unknown => exact copies_zero h _
    | value =>
      refine copies_value h ?_
      by_cases hlt : p.attr < 256
      · rw [releases_eq hlt, ht]
        rfl
      · exact releases_eq_false cfg (by omega)
    | rmem =>
      cases cfg.ffa with
      | true => exact (setFmemParam_sets h).copies
      | false =>
        cases cfg.dynShm with
        | true => exact (setRmemParam_sets h).copies
        | false => exact copies_zero h _
    | tmem =>
      cases cfg.ffa with
      | true => exact copies_zero h _
      | false => exact (setTmemParam_sets h).copies

/-! ## All the parameters -/

/-- A parameter that refers to memory has no attribute bits that are not looked at again. -/
def Param.Tidy (cfg : Config) (s : State) (p : Param) : Prop :=
  p.refers cfg s → p.attr < 256 ∧ (cfg.ffa → cfg.dynShm)

instance (cfg : Config) (s : State) (p : Param) : Decidable (p.Tidy cfg s) :=
  inferInstanceAs (Decidable (_ → _))

/-- Every parameter that `copy_in_params` gets to is tidy. -/
def TidyParams (cfg : Config) : State → List Param → Prop
  | _, [] => True
  | s, p :: ps => p.Tidy cfg s ∧
    match copyInParam cfg s p with
    | .ok (s', _, .ok ()) => TidyParams cfg s' ps
    | _ => True

instance TidyParams.decidable (cfg : Config) : ∀ s ps, Decidable (TidyParams cfg s ps)
  | _, [] => isTrue trivial
  | s, p :: ps =>
    have : Decidable (match copyInParam cfg s p with
        | .ok (s', _, .ok ()) => TidyParams cfg s' ps
        | _ => True) :=
      match copyInParam cfg s p with
      | .ok (s', _, .ok ()) => TidyParams.decidable cfg s' ps
      | .ok (_, _, .error _) => isTrue trivial
      | .error _ => isTrue trivial
    inferInstanceAs (Decidable (_ ∧ _))

theorem Param.releases_iff {p : Param} (h : p.refers cfg s) :
    releases cfg p.attr ↔ p.attr < 256 ∧ (cfg.ffa → cfg.dynShm) := by
  by_cases hlt : p.attr < 256
  · rw [releases_eq hlt]
    simp only [Param.refers, Bool.and_eq_true] at h
    cases ht : p.type <;> rw [ht] at h <;> simp only [ParamType.released, hlt, true_and]
    case none => simp at h
    case value => simp at h
    case unknown => simp at h
    case rmem => cases hf : cfg.ffa <;> simp_all
    case tmem => simp_all
  · simp [releases_eq_false cfg (Nat.le_of_not_lt hlt), hlt]

/-- The objects that saved parameters refer to. -/
def refs (saved : List Saved) : List ℕ := saved.flatMap fun x => x.2.refs

theorem TaParam.refs_of_mobj {tp : TaParam} {o : Option ℕ}
    (h : tp.mobj = .ok o) : tp.refs = o.toList := by
  cases tp <;> cases h <;> rfl

/-- All parameters were copied in, and those to be released have their pointers. -/
structure Copied (cfg : Config) (s₀ s : State) (taken : List ℕ) (saved : List Saved) : Prop where
  ledger : Ledger s₀ s (refs saved ++ taken)
  pointers : ∀ x ∈ saved, releases cfg x.1 → ∃ o, x.2.mobj = .ok o

theorem copyInLoop_spec (cfg : Config) :
    ∀ (ps : List Param) {s : State} {taken : List ℕ}, Ledger s₀ s taken →
    ∃ s' saved res, copyInLoop cfg s ps = .ok (s', saved, res) ∧ Copied cfg s₀ s' taken saved ∧
      (TidyParams cfg s ps ↔ ∀ x ∈ saved, x.2.refs ≠ [] → releases cfg x.1)
  | [], s, taken, h => ⟨s, [], .ok (), rfl, ⟨h, by simp⟩, by simp [TidyParams]⟩
  | p :: ps, s, taken, h => by
    obtain ⟨s₁, tp, res, hcopy, hl, hrefs, hptr⟩ := copyInParam_copies cfg h p
    have htidy : p.Tidy cfg s ↔ (tp.refs ≠ [] → releases cfg p.attr) := by
      rw [hrefs]
      exact forall_congr' fun hr => (Param.releases_iff hr).symm
    cases res with
    | error e =>
      refine ⟨s₁, [(p.attr, tp)], .error e, by simp only [copyInLoop, hcopy]; rfl, ⟨?_, ?_⟩, ?_⟩
      · simpa [refs] using hl
      · simpa using hptr
      · simp [TidyParams, hcopy, htidy]
    | ok u =>
      obtain ⟨s₂, saved, res, hloop, ⟨hl₂, hptr₂⟩, htidy₂⟩ := copyInLoop_spec cfg ps hl
      refine ⟨s₂, (p.attr, tp) :: saved, res, ?_, ⟨?_, ?_⟩, ?_⟩
      · simp only [copyInLoop, hcopy]
        change (copyInLoop cfg s₁ ps >>= _) = _
        rw [hloop]
        rfl
      · refine hl₂.of_count fun a => ?_
        simp only [refs, List.flatMap_cons, List.count_append]
        ring
      · simpa using ⟨hptr, fun a b hmem => hptr₂ (a, b) hmem⟩
      · rw [TidyParams, hcopy, htidy]
        change (_ ∧ TidyParams cfg s₁ ps) ↔ _
        rw [htidy₂]
        simp

theorem copyInParams_spec (cfg : Config) (ps : List Param) (h : WellFormed s) :
    ∃ s' saved res, copyInParams cfg s ps = .ok (s', saved, res) ∧ Copied cfg s s' [] saved ∧
      ((ps.length ≤ teeNumParams → TidyParams cfg s ps) ↔
        ∀ x ∈ saved, x.2.refs ≠ [] → releases cfg x.1) := by
  rw [copyInParams]
  split_ifs with hlen
  · exact ⟨s, [], _, rfl, ⟨.refl h, by simp⟩, by simp; omega⟩
  · obtain ⟨s', saved, res, hloop, hc, htidy⟩ := copyInLoop_spec cfg ps (.refl h)
    exact ⟨s', saved, res, hloop, hc, by rw [← htidy]; simp; omega⟩

/-- The objects whose references are not released. -/
def kept (cfg : Config) (saved : List Saved) : List ℕ :=
  refs (saved.filter fun x => !releases cfg x.1)

theorem cleanupShmRefs_spec (hs₀ : WellFormed s₀) :
    ∀ {saved : List Saved} {s : State} {taken : List ℕ}, Copied cfg s₀ s taken saved →
      ∃ s', cleanupShmRefs cfg s saved = .ok s' ∧ Ledger s₀ s' (kept cfg saved ++ taken)
  | [], s, taken, h => ⟨s, rfl, h.ledger⟩
  | (attr, tp) :: rest, s, taken, ⟨hl, hptr⟩ => by
    have hrest : ∀ x ∈ rest, releases cfg x.1 → ∃ o, x.2.mobj = .ok o := fun x hx =>
      hptr x (List.mem_cons_of_mem _ hx)
    rw [refs, List.flatMap_cons] at hl
    cases hr : releases cfg attr with
    | false =>
      have hl' : Ledger s₀ s (refs rest ++ (tp.refs ++ taken)) := hl.of_count fun a => by
        simp only [refs, List.count_append]
        ring
      obtain ⟨s', hs', hl''⟩ := cleanupShmRefs_spec hs₀ ⟨hl', hrest⟩
      refine ⟨s', by simp only [cleanupShmRefs, hr]; exact hs', hl''.of_count fun a => ?_⟩
      simp only [kept, refs, hr, List.filter_cons, Bool.not_false, ↓reduceIte, List.flatMap_cons,
        List.count_append]
      ring
    | true =>
      obtain ⟨o, ho⟩ := hptr _ List.mem_cons_self hr
      obtain ⟨s₁, hput, hl₁⟩ : ∃ s₁, mobjPut s o = .ok s₁ ∧ Ledger s₀ s₁ (refs rest ++ taken) := by
        rw [TaParam.refs_of_mobj ho] at hl
        cases o with
        | none => exact ⟨s, rfl, hl⟩
        | some a => exact Ledger.put hl hs₀
      obtain ⟨s', hs', hl'⟩ := cleanupShmRefs_spec hs₀ ⟨hl₁, hrest⟩
      have hkept : kept cfg ((attr, tp) :: rest) = kept cfg rest := by simp [kept, hr]
      refine ⟨s', ?_, hkept ▸ hl'⟩
      simp only [cleanupShmRefs, hr, ho, ↓reduceIte]
      change (mobjPut s o >>= _) = _
      rw [hput]
      exact hs'

theorem cleanupShmRefs_called (env : Env) : ∀ (saved : List Saved) (s : State),
    cleanupShmRefs cfg s (env.called saved) = cleanupShmRefs cfg s saved
  | [], s => rfl
  | (attr, tp) :: rest, s => by
    have hmobj : (tp.update (env.outs 0)).mobj = tp.mobj := by cases tp <;> rfl
    have hrest := cleanupShmRefs_called { env with outs := fun i => env.outs (i + 1) } rest
    simp only [Env.called] at hrest
    simp only [Env.called, List.mapIdx_cons, cleanupShmRefs, hmobj, hrest]

/-! ## Messages -/

/-- The references and the objects are those from before. -/
structure Balanced (s₀ s : State) : Prop where
  refc : ∀ a, s.refc a = s₀.refc a
  addrs : s.addrs = s₀.addrs

theorem Ledger.balanced_iff (h : Ledger s₀ s taken) : Balanced s₀ s ↔ taken = [] := by
  constructor
  · intro hb
    refine List.eq_nil_iff_forall_not_mem.2 fun a ha => ?_
    have := List.count_pos_iff.2 ha
    have := h.refc a
    have := hb.refc a
    omega
  · rintro rfl
    refine ⟨fun a => by simpa using h.refc a, ?_⟩
    obtain ⟨made, hmade⟩ := h.addrs
    suffices hnil : made = [] by rw [hmade, hnil, List.nil_append]
    refine List.eq_nil_iff_forall_not_mem.2 fun a ha => ?_
    have hnodup := h.wf.nodup
    rw [hmade] at hnodup
    have hnew : a ∉ s₀.addrs := fun hmem => List.disjoint_of_nodup_append hnodup ha hmem
    obtain ⟨m, hm⟩ := State.mem_addrs.1 (hmade ▸ List.mem_append_left _ ha)
    have hpos := h.wf.held a m hm (by rw [h.own a m hnew hm]; nofun)
    have hzero := h.refc a
    rw [State.refc_of_find hm, State.refc_eq_zero hnew, List.count_nil] at hzero
    omega

theorem kept_eq_nil {saved : List Saved} :
    kept cfg saved = [] ↔ ∀ x ∈ saved, x.2.refs ≠ [] → releases cfg x.1 := by
  simp only [kept, refs, List.flatMap_eq_nil_iff, List.mem_filter, Bool.not_eq_true', and_imp]
  refine forall₂_congr fun x _ => ?_
  cases releases cfg x.1 <;> simp

/-- The parameters that are copied in. -/
def Message.params : Message → List Param
  | .openSession params => if getOpenSessionMeta params = .ok () then params.drop 2 else []
  | .invokeCommand _ params => params

/-- All parameters of a message that gets that far are tidy. -/
def Message.Tidy (cfg : Config) (s : State) (msg : Message) : Prop :=
  msg.params.length ≤ teeNumParams → TidyParams cfg s msg.params

theorem bind_answer {x : TeeResult State} {ans : Answer} (h : x = .ok s) :
    (x >>= fun s => .ok (s, ans))
    = .ok (s, ans) := by
  rw [h]
  rfl

/-- A message is answered, and gives back every reference that it took and frees every object that
it made, exactly when the parameters that refer to memory are tidy. -/
theorem references_balance (cfg : Config) (env : Env) (s : State) (msg : Message)
    (h : WellFormed s) :
    ∃ s' ans, entry cfg env s msg = .ok (s', ans) ∧ (Balanced s s' ↔ msg.Tidy cfg s) := by
  obtain ⟨s₁, saved, res, hin, hcopied, htidy⟩ := copyInParams_spec cfg msg.params h
  obtain ⟨s₂, hclean, hl⟩ := cleanupShmRefs_spec h hcopied
  have hcalled := (cleanupShmRefs_called env saved s₁).trans hclean
  have hiff : Balanced s s₂ ↔ msg.Tidy cfg s := by
    rw [Message.Tidy, htidy, ← kept_eq_nil, hl.balanced_iff, List.append_nil]
  cases msg with
  | openSession params =>
    rw [entry, entryOpenSession]
    cases hmeta : getOpenSessionMeta params with
    | error e =>
      have hnone : (Message.openSession params).params = [] := by simp [Message.params, hmeta]
      refine ⟨s, _, rfl, ⟨fun _ _ => ?_, fun _ => ⟨fun _ => rfl, rfl⟩⟩⟩
      rw [hnone]
      trivial
    | ok u =>
      have hparams : (Message.openSession params).params = params.drop 2 := by
        simp [Message.params, hmeta]
      rw [hparams] at hin
      simp only [hin]
      cases res with
      | error e => exact ⟨s₂, _, bind_answer hclean, hiff⟩
      | ok u => exact ⟨s₂, _, bind_answer hcalled, hiff⟩
  | invokeCommand session params =>
    rw [entry, entryInvokeCommand]
    change copyInParams cfg s params = _ at hin
    simp only [hin]
    cases res with
    | error e => exact ⟨s₂, _, bind_answer hclean, hiff⟩
    | ok u =>
      cases henv : env.session with
      | none => exact ⟨s₂, _, bind_answer hclean, hiff⟩
      | some id => exact ⟨s₂, _, bind_answer hcalled, hiff⟩

def smcConfig : Config := ⟨64, 64, false, true⟩

/-- Physical memory and one registered buffer. -/
def twoMobjs : State :=
  ⟨[⟨0, .phys 0x1000, 0, 0x2000, 0, 1⟩, ⟨1, .regShm false, 77, 4096, 0, 1⟩], 2⟩

def tidyCommand : Message :=
  .invokeCommand 1 [⟨0x9, 0x1000, 16, 0, true⟩, ⟨0x7, 8, 16, 77, true⟩, ⟨0x10003, 1, 2, 3, true⟩]

theorem twoMobjs_wellFormed : WellFormed twoMobjs where
  nodup := by decide
  fresh := by decide
  held a m hm _ := by
    have hall : ∀ m ∈ twoMobjs.mobjs, 0 < m.refc := by decide
    exact hall m (List.mem_of_find?_eq_some hm)

theorem references_balance_tidy :
    WellFormed twoMobjs ∧ tidyCommand.Tidy smcConfig twoMobjs ∧
    ∃ s' ans, entry smcConfig ⟨some 1, .ok (), fun _ => (0, 0)⟩ twoMobjs tidyCommand
      = .ok (s', ans) ∧ Balanced twoMobjs s' := by
  have htidy : tidyCommand.Tidy smcConfig twoMobjs := fun _ => by decide
  obtain ⟨s', ans, hrun, hiff⟩ := references_balance smcConfig ⟨some 1, .ok (), fun _ => (0, 0)⟩
    twoMobjs tidyCommand twoMobjs_wellFormed
  exact ⟨twoMobjs_wellFormed, htidy, s', ans, hrun, hiff.2 htidy⟩

/-- A list of pages keeps its object, a registered buffer with a bit outside of the type its
reference, and so does FF-A memory without `CFG_CORE_DYN_SHM`. -/
theorem references_leak :
    (∃ s, (entry smcConfig ⟨some 1, .ok (), fun _ => (0, 0)⟩ twoMobjs
        (.invokeCommand 1 [⟨0x209, 0x5000, 16, 78, true⟩])).map Prod.fst = .ok s ∧
      s.addrs ≠ twoMobjs.addrs) ∧
    (∃ s, (entry smcConfig ⟨some 1, .ok (), fun _ => (0, 0)⟩ twoMobjs
        (.invokeCommand 1 [⟨0x10007, 8, 16, 77, true⟩])).map Prod.fst = .ok s ∧
      s.refc 1 = twoMobjs.refc 1 + 1) ∧
    (∃ s, (entry ⟨64, 64, true, false⟩ ⟨some 1, .ok (), fun _ => (0, 0)⟩
        ⟨[⟨0, .ffa, 5, 4096, 0, 0⟩], 1⟩
        (.invokeCommand 1 [⟨0x7, 0, 16, 5, true⟩])).map Prod.fst = .ok s ∧
      s.refc 0 = 1) :=
  ⟨exists_ok_of_decide (by decide +kernel), exists_ok_of_decide (by decide +kernel),
    exists_ok_of_decide (by decide +kernel)⟩

end Optee.EntryStd
