import Optee.Proofs.TaRegistry

/-!
# References to a context

A context that is not destroyed counts the sessions attached to it and the frames that freed such a
session and still owe its reference. This and its place in `tee_ctxes` (`CtxOk`) are kept by its
moves (`CtxOk.move`).
-/

namespace Optee.TaManager

variable {n : ℕ} {x x' : TaCtx} {linked linked' : Prop}

/-- What sessions and frames have to do with a context, added up. -/
structure CtxHas where
  att : ℕ
  loads : ℕ
  owes : ℕ
  releases : ℕ
  destroys : ℕ

def CtxHas.add (x y : CtxHas) : CtxHas :=
  ⟨x.att + y.att, x.loads + y.loads, x.owes + y.owes, x.releases + y.releases,
    x.destroys + y.destroys⟩

/-- A number of attached sessions, and what one role has. -/
def CtxRole.has (att : ℕ) : Option CtxRole → CtxHas
  | some .loads => ⟨att, 1, 0, 0, 0⟩
  | some .owes => ⟨att, 0, 1, 0, 0⟩
  | some .releases => ⟨att, 0, 0, 1, 0⟩
  | some .destroys => ⟨att, 0, 0, 0, 1⟩
  | none => ⟨att, 0, 0, 0, 0⟩

theorem CtxRole.att_has {k : ℕ} {κ : Option CtxRole} : (CtxRole.has k κ).att = k := by
  rcases κ with _ | _ | _ | _ | _ <;> rfl

/-- What holds of a context that is on `tee_ctxes` or not, by its sessions and what the frames have
of it. -/
structure CtxOk (x : TaCtx) (linked : Prop) (h : CtxHas) : Prop where
  refs : x.destroys = 0 → x.refCount = h.att + h.owes
  gone : 0 < x.destroys + h.destroys → h.att = 0 ∧ h.owes = 0 ∧ h.loads = 0 ∧ ¬ linked
  once : x.destroys + h.destroys ≤ 1
  unlinks : x.unlinks ≤ 1
  unlinked : 0 < x.unlinks → ¬ linked ∧ (x.isReleasing = true ∨ 0 < x.destroys)
  releases : x.releases + h.releases ≤ x.isReleasing.toNat
  of_linked : linked → x.isReleasing = false
  loads : 0 < h.loads → h.loads = 1 ∧ x.refCount = 1 ∧ x.isReleasing = false
    ∧ (linked ↔ x.kind = .user) ∧ (x.kind = .user → x.isInitializing = true)
  multi : x.flags.singleInstance = false → h.att + h.owes ≤ 1

/-- A context that may be busy or panicked by now, but is otherwise the same. -/
structure TaCtx.Alike (x x' : TaCtx) : Prop where
  eq : x' = { x with busy := x'.busy, panicked := x'.panicked }
  panicked : x.panicked = true → x'.panicked = true

theorem TaCtx.Alike.refl : x.Alike x := ⟨rfl, id⟩

theorem CtxOk.alike {h : CtxHas} (hx : CtxOk x linked h) (he : x.Alike x') : CtxOk x' linked h := by
  rw [he.eq]
  exact ⟨hx.refs, hx.gone, hx.once, hx.unlinks, hx.unlinked, hx.releases, hx.of_linked, hx.loads,
    hx.multi⟩

/-- What a step makes of a context, and of the session or the role of the step. -/
inductive TaCtx.Move (x : TaCtx) (linked : Prop) (h : CtxHas) :
    CtxHas → TaCtx → Prop → CtxHas → Prop
  | attach : linked → x.flags.singleInstance = true →
    ¬ (x.kind = .user ∧ x.isInitializing = true) →
    Move x linked h (CtxRole.has 0 none) { x with refCount := x.refCount + 1 } linked
      (CtxRole.has 1 none)
  | loaded {flags linked'} : (linked → linked') →
    Move x linked h (CtxRole.has 0 (some .loads)) { x with isInitializing := false, flags := flags }
      linked' (CtxRole.has 0 none)
  | failed {k} : k ≤ 1 →
    Move x linked h (CtxRole.has 1 (some .loads))
      { x with unlinks := x.unlinks + k, destroys := x.destroys + 1 } False (CtxRole.has 0 none)
  | free : Move x linked h (CtxRole.has 1 none) x linked (CtxRole.has 0 (some .owes))
  | keep : h.loads = 0 →
    Move x linked h (CtxRole.has 0 (some .owes)) { x with refCount := x.refCount - 1 } linked
      (CtxRole.has 0 none)
  | destroy : h.loads = 0 → x.refCount = 1 →
    Move x linked h (CtxRole.has 0 (some .owes))
      { x with
        refCount := 0, isReleasing := true
        unlinks := x.unlinks + if x.isReleasing then 0 else 1 } False
      (CtxRole.has 0 (some .destroys))
  | release : h.loads = 0 → 0 < h.att → x.isReleasing = false →
    Move x linked h (CtxRole.has 0 none) { x with isReleasing := true, unlinks := x.unlinks + 1 }
      False (CtxRole.has 0 (some .releases))
  | released : Move x linked h (CtxRole.has 0 (some .releases))
      { x with releases := x.releases + 1 } linked (CtxRole.has 0 none)
  | destroyed : Move x linked h (CtxRole.has 0 (some .destroys))
      { x with destroys := x.destroys + 1 } linked (CtxRole.has 0 none)

section Move

variable {rest y y' : CtxHas} (hx : CtxOk x linked (rest.add y))
  (hm : x.Move linked (rest.add y) y x' linked' y')

include hx hm

theorem CtxOk.move_refs : (x'.destroys = 0 → x'.refCount = (rest.add y').att + (rest.add y').owes) ∧
    (x'.flags.singleInstance = false → (rest.add y').att + (rest.add y').owes ≤ 1) := by
  obtain ⟨hrefs, hgone, honce, -, -, -, -, hload, hmulti⟩ := hx
  cases hm <;> simp only [CtxHas.add, CtxRole.has, Nat.add_zero] at * <;> constructor <;> grind

theorem CtxOk.move_destroys : (0 < x'.destroys + (rest.add y').destroys →
    (rest.add y').att = 0 ∧ (rest.add y').owes = 0 ∧ (rest.add y').loads = 0 ∧ ¬ linked') ∧
    x'.destroys + (rest.add y').destroys ≤ 1 := by
  obtain ⟨hrefs, hgone, honce, -, -, -, -, hload, -⟩ := hx
  cases hm <;> simp only [CtxHas.add, CtxRole.has, Nat.add_zero] at * <;> constructor <;> grind

theorem CtxOk.move_unlinks : x'.unlinks ≤ 1 ∧
    (0 < x'.unlinks → ¬ linked' ∧ (x'.isReleasing = true ∨ 0 < x'.destroys)) := by
  obtain ⟨-, hgone, honce, hunl, hunld, -, hlink, hload, -⟩ := hx
  cases hm <;> simp only [CtxHas.add, CtxRole.has, Nat.add_zero] at * <;> constructor <;> grind

theorem CtxOk.move_releases : x'.releases + (rest.add y').releases ≤ x'.isReleasing.toNat ∧
    (linked' → x'.isReleasing = false) := by
  obtain ⟨-, -, -, -, -, hrel, hlink, hload, -⟩ := hx
  have hone := Bool.toNat_le x.isReleasing
  cases hm <;> simp only [CtxHas.add, CtxRole.has, Nat.add_zero] at * <;> constructor <;> grind

theorem CtxOk.move_loads :
    0 < (rest.add y').loads → (rest.add y').loads = 1 ∧ x'.refCount = 1 ∧
    x'.isReleasing = false ∧ (linked' ↔ x'.kind = .user)
      ∧ (x'.kind = .user → x'.isInitializing = true) := by
  obtain ⟨hrefs, hgone, -, -, -, -, -, hload, -⟩ := hx
  cases hm <;> simp only [CtxHas.add, CtxRole.has, Nat.add_zero] at * <;> grind

theorem CtxOk.move : CtxOk x' linked' (rest.add y') where
  refs := (hx.move_refs hm).1
  gone := (hx.move_destroys hm).1
  once := (hx.move_destroys hm).2
  unlinks := (hx.move_unlinks hm).1
  unlinked := (hx.move_unlinks hm).2
  releases := (hx.move_releases hm).1
  of_linked := (hx.move_releases hm).2
  loads := hx.move_loads hm
  multi := (hx.move_refs hm).2

end Move

theorem TaCtx.Move.linked_of_att {h y y' : CtxHas} (hm : x.Move linked h y x' linked' y')
    (hatt : y'.att = y.att + 1) : linked := by
  cases hm <;> first
    | assumption
    | simp [CtxRole.has] at hatt

/-- A context as it may be later. -/
structure TaCtx.Later (x x' : TaCtx) : Prop where
  kind : x'.kind = x.kind
  panicked : x.panicked = true → x'.panicked = true

theorem TaCtx.Later.refl : x.Later x := ⟨rfl, fun h => h⟩

theorem TaCtx.Alike.later (h : x.Alike x') : x.Later x' := ⟨by rw [h.eq], h.panicked⟩

theorem TaCtx.Move.later {h y y' : CtxHas} (hm : x.Move linked h y x' linked' y') : x.Later x' := by
  cases hm <;> exact ⟨rfl, fun h => h⟩

/-! ## All contexts -/

variable {m m' : Manager n} {Q Q' : Fin n → List (ℕ × CtxRole)} {t u : Fin n} {a c d : ℕ}
  {l : List (ℕ × CtxRole)} {κ κ' : Option CtxRole} {σ' : Session n} {α α' : ℕ}

/-- The session refers to the context. -/
def attached (c : ℕ) (σ : Session n) : ℕ := if σ.freed = false ∧ σ.ctx = some c then 1 else 0

/-- The number of sessions that refer to a context. -/
def att (m : Manager n) (c : ℕ) : ℕ := ∑ a ∈ Finset.range m.nextSess, attached c (m.sess a)

theorem att_congr (hsess : m'.sess = m.sess)
    (hnext : m'.nextSess = m.nextSess) : att m' c = att m c := by
  rw [att, att, hsess, hnext]

theorem att_update (ha : a < m.nextSess) (hsess : m'.sess = Function.update m.sess a σ')
    (hnext : m'.nextSess = m.nextSess) :
    att m' c + attached c (m.sess a) = att m c + attached c σ' := by
  have hmem := Finset.mem_range.2 ha
  have hrest : ∑ b ∈ (Finset.range m.nextSess).erase a, attached c (Function.update m.sess a σ' b)
      = ∑ b ∈ (Finset.range m.nextSess).erase a, attached c (m.sess b) :=
    Finset.sum_congr rfl fun b hb => by rw [Function.update_of_ne (Finset.ne_of_mem_erase hb)]
  rw [att, att, hsess, hnext, ← Finset.add_sum_erase _ _ hmem, ← Finset.add_sum_erase _ _ hmem,
    hrest, Function.update_self]
  omega

theorem att_eq (ha : a < m.nextSess) (hsess : m'.sess = Function.update m.sess a σ')
    (hnext : m'.nextSess = m.nextSess)
    (h : attached c (m.sess a) = attached c σ') : att m' c = att m c := by
  have hup := att_update (c := c) ha hsess hnext
  omega

theorem att_alloc (hsess : m'.sess = Function.update m.sess m.nextSess σ')
    (hnext : m'.nextSess = m.nextSess + 1) : att m' c = att m c + attached c σ' := by
  rw [att, att, hsess, hnext, Finset.sum_range_succ, Function.update_self]
  congr 1
  exact Finset.sum_congr rfl fun b hb => by
    rw [Function.update_of_ne (Finset.mem_range.1 hb).ne]

theorem attached_congr {σ : Session n} (hc : σ'.ctx = σ.ctx) (hf : σ'.freed = σ.freed) :
    attached d σ = attached d σ' := by
  rw [attached, attached, hc, hf]

theorem attached_of_live {σ : Session n} (hf : σ.freed = false) :
    attached d σ = if σ.ctx = some d then 1 else 0 := by
  simp [attached, hf]

theorem attached_of_ctx {σ : Session n} (hf : σ.freed = false) (hc : σ.ctx = some c) :
    attached d σ = if d = c then 1 else 0 := by
  simp only [attached, hf, hc, Option.some.injEq, true_and, eq_comm]

theorem attached_of_none {σ : Session n} (hc : σ.ctx = none) : attached d σ = 0 := by
  simp [attached, hc]

theorem attached_eq_one {σ : Session n} (hf : σ.freed = false) (hc : σ.ctx = some c) :
    attached c σ = 1 := if_pos ⟨hf, hc⟩

theorem att_pos (ha : a < m.nextSess) (hf : (m.sess a).freed = false)
    (hc : (m.sess a).ctx = some c) : 0 < att m c := by
  refine (Nat.zero_lt_one.trans_le ?_).trans_le
    (Finset.single_le_sum (fun _ _ => Nat.zero_le _) (Finset.mem_range.2 ha))
  rw [attached_eq_one hf hc]

theorem att_le_one {b : ℕ} (h : att m c ≤ 1) (ha : a < m.nextSess) (hf : (m.sess a).freed = false)
    (hc : (m.sess a).ctx = some c) (hb : b < m.nextSess) (hfb : (m.sess b).freed = false)
    (hcb : (m.sess b).ctx = some c) : a = b := by
  by_contra hne
  have hsub : ({a, b} : Finset ℕ) ⊆ Finset.range m.nextSess := by
    simp [Finset.insert_subset_iff, ha, hb]
  have htwo := Finset.sum_le_sum_of_subset (f := fun a => attached c (m.sess a)) hsub
  rw [Finset.sum_pair hne, attached_eq_one hf hc, attached_eq_one hfb hcb] at htwo
  exact absurd (htwo.trans h) (by decide)

/-- The sessions attached to a context, and what all frames have of it. -/
def ctxHasOf (m : Manager n) (Q : Fin n → List (ℕ × CtxRole)) (c : ℕ) : CtxHas where
  att := att m c
  loads := total (held (fun r => if r = .loads then 1 else 0) c) Q
  owes := total (held (fun r => if r = .owes then 1 else 0) c) Q
  releases := total (held (fun r => if r = .releases then 1 else 0) c) Q
  destroys := total (held (fun r => if r = .destroys then 1 else 0) c) Q

theorem ctxHasOf_at {k : ℕ} (hatt : att m c = k + α) :
    ctxHasOf m (Function.update Q t (roleAt c κ ++ l)) c
      = CtxHas.add { ctxHasOf m (Function.update Q t l) c with att := k } (CtxRole.has α κ) := by
  rcases κ with _ | _ | _ | _ | _ <;>
    simp [ctxHasOf, total_update_append, sum_held_at, CtxHas.add, CtxRole.has, hatt]

theorem ctxHasOf_at_ne (hne : d ≠ c) (hatt : att m' d = att m d) :
    ctxHasOf m' (Function.update Q t (roleAt c κ ++ l)) d
      = ctxHasOf m (Function.update Q t l) d := by
  simp [ctxHasOf, total_update_append, sum_held_at, hne.symm, hatt]

/-- Every context is as its sessions and frames say. -/
structure CtxRegistered (m : Manager n) (Q : Fin n → List (ℕ × CtxRole)) : Prop where
  ok : ∀ c < m.nextCtx, CtxOk (m.ctx c) (c ∈ m.teeCtxes) (ctxHasOf m Q c)
  fresh : ∀ t, ∀ p ∈ Q t, p.1 < m.nextCtx
  linked : ∀ c ∈ m.teeCtxes, c < m.nextCtx
  nodup : m.teeCtxes.Nodup
  sess : ∀ a < m.nextSess, ∀ c ∈ (m.sess a).ctx, c < m.nextCtx
  unused : ∀ c, m.nextCtx ≤ c → m.ctx c = .zero

theorem CtxRegistered.empty : CtxRegistered (.empty : Manager n) fun _ => [] where
  ok _ h := absurd h (Nat.not_lt_zero _)
  fresh _ _ h := absurd h List.not_mem_nil
  linked _ h := absurd h List.not_mem_nil
  nodup := List.nodup_nil
  sess _ h := absurd h (Nat.not_lt_zero _)
  unused _ _ := rfl

namespace CtxRegistered

variable (h : CtxRegistered m Q)
include h

theorem same (hctx : ∀ d, (m.ctx d).Alike (m'.ctx d))
    (hbusy : ∀ d, m.nextCtx ≤ d → m'.ctx d = m.ctx d) (hnext : m'.nextCtx = m.nextCtx)
    (hlink : m'.teeCtxes = m.teeCtxes) (hatt : ∀ d, att m' d = att m d)
    (hsess : ∀ a < m'.nextSess, ∀ c ∈ (m'.sess a).ctx, c < m.nextCtx) : CtxRegistered m' Q where
  ok c hc := by
    have hok := (h.ok c (hnext ▸ hc)).alike (hctx c)
    rw [hlink]
    simpa [ctxHasOf, hatt] using hok
  fresh := by rw [hnext]; exact h.fresh
  linked := by rw [hnext, hlink]; exact h.linked
  nodup := hlink ▸ h.nodup
  sess := by rw [hnext]; exact hsess
  unused c hc := by rw [hbusy c (hnext ▸ hc), h.unused c (hnext ▸ hc)]

theorem change (hQ : Q t = roleAt c κ ++ l) (hQ' : Q' = Function.update Q t (roleAt c κ' ++ l))
    (hc : c < m.nextCtx)
    (hm : (m.ctx c).Move (c ∈ m.teeCtxes) (ctxHasOf m Q c) (CtxRole.has α κ) x' linked'
      (CtxRole.has α' κ'))
    (hctx : m'.ctx = Function.update m.ctx c x') (hnext : m'.nextCtx = m.nextCtx)
    (hlink : ∀ d, d ∈ m'.teeCtxes ↔ if d = c then linked' else d ∈ m.teeCtxes)
    (hnodup : m'.teeCtxes.Nodup)
    (hatt : ∀ d, att m' d + (if d = c then α else 0) = att m d + if d = c then α' else 0)
    (hα : α ≤ att m c)
    (hsess : ∀ a < m'.nextSess, ∀ c ∈ (m'.sess a).ctx, c < m.nextCtx) : CtxRegistered m' Q' := by
  have hQt : Q = Function.update Q t (roleAt c κ ++ l) := by rw [← hQ, Function.update_eq_self]
  constructor
  · intro d hd
    rw [hnext] at hd
    rw [hctx, hlink, hQ']
    rcases eq_or_ne d c with rfl | hne
    · have hsame := hatt d
      simp only [if_true] at hsame
      have hk : att m d = (att m d - α) + α := by omega
      have hk' : att m' d = (att m d - α) + α' := by omega
      have hok := h.ok d hd
      rw [hQt, ctxHasOf_at hk] at hok hm
      rw [ctxHasOf_at hk', Function.update_self, if_pos rfl]
      exact hok.move hm
    · have hsame : att m' d = att m d := by simpa [hne] using hatt d
      have hok := h.ok d hd
      rw [hQt, ctxHasOf_at_ne hne rfl] at hok
      rwa [ctxHasOf_at_ne hne hsame, Function.update_of_ne hne, if_neg hne]
  · intro u p hp
    rw [hnext]
    rw [hQ'] at hp
    rcases eq_or_ne u t with rfl | hut
    · rw [Function.update_self, List.mem_append] at hp
      rcases hp with hp | hp
      · cases κ' with
        | none => simp [roleAt] at hp
        | some r =>
          simp only [roleAt, Option.map_some, Option.toList_some, List.mem_singleton] at hp
          rwa [hp]
      · exact h.fresh u p (by rw [hQ]; exact List.mem_append_right _ hp)
    · rw [Function.update_of_ne hut] at hp
      exact h.fresh u p hp
  · intro d hd
    rw [hnext]
    rcases eq_or_ne d c with rfl | hne
    · exact hc
    · exact h.linked d (by simpa [hne] using (hlink d).1 hd)
  · exact hnodup
  · rw [hnext]
    exact hsess
  · intro d hd
    rw [hnext] at hd
    rw [hctx, Function.update_of_ne (by omega), h.unused d hd]

theorem new (hQ' : Q' = Function.update Q t (roleAt m.nextCtx κ' ++ Q t))
    (hok : CtxOk x' linked' (CtxRole.has 1 κ'))
    (hctx : m'.ctx = Function.update m.ctx m.nextCtx x') (hnext : m'.nextCtx = m.nextCtx + 1)
    (hlink : ∀ d, d ∈ m'.teeCtxes ↔ if d = m.nextCtx then linked' else d ∈ m.teeCtxes)
    (hnodup : m'.teeCtxes.Nodup)
    (hatt : ∀ d, att m' d = att m d + if d = m.nextCtx then 1 else 0)
    (hsess : ∀ a < m'.nextSess, ∀ c ∈ (m'.sess a).ctx, c < m.nextCtx + 1) :
    CtxRegistered m' Q' := by
  have hunused : ∀ w, ∀ u, ∀ p ∈ Q u, held w m.nextCtx p = 0 := fun w u p hp =>
    if_neg (h.fresh u p hp).ne
  have hz : att m m.nextCtx = 0 := Finset.sum_eq_zero fun a ha => if_neg fun hac =>
    absurd (h.sess a (Finset.mem_range.1 ha) _ hac.2) (lt_irrefl _)
  have hnone : ctxHasOf m Q m.nextCtx = ⟨0, 0, 0, 0, 0⟩ := by
    simp only [ctxHasOf, hz, total_eq_zero.2 (hunused _)]
  have hself : Function.update Q t (Q t) = Q := Function.update_eq_self t Q
  constructor
  · intro d hd
    rw [hctx, hlink, hQ']
    rcases eq_or_ne d m.nextCtx with rfl | hne
    · have hone : att m' m.nextCtx = 0 + 1 := by rw [hatt, hz, if_pos rfl]
      rw [ctxHasOf_at hone, hself, Function.update_self, if_pos rfl]
      have hall : CtxHas.add { ctxHasOf m' Q m.nextCtx with att := 0 } (CtxRole.has 1 κ')
          = CtxRole.has 1 κ' := by
        simp only [ctxHasOf, total_eq_zero.2 (hunused _)]
        rcases κ' with _ | _ | _ | _ | _ <;> rfl
      rwa [hall]
    · have hsame : att m' d = att m d := by rw [hatt, if_neg hne, add_zero]
      rw [ctxHasOf_at_ne hne hsame, hself, Function.update_of_ne hne, if_neg hne]
      exact h.ok d (by omega)
  · intro u p hp
    rw [hQ'] at hp
    rw [hnext]
    rcases eq_or_ne u t with rfl | hut
    · rw [Function.update_self, List.mem_append] at hp
      rcases hp with hp | hp
      · cases κ' with
        | none => simp [roleAt] at hp
        | some r =>
          simp only [roleAt, Option.map_some, Option.toList_some, List.mem_singleton] at hp
          rw [hp]
          exact Nat.lt_succ_self _
      · exact Nat.lt_succ_of_lt (h.fresh u p hp)
    · rw [Function.update_of_ne hut] at hp
      exact Nat.lt_succ_of_lt (h.fresh u p hp)
  · intro d hd
    rw [hnext]
    rcases eq_or_ne d m.nextCtx with rfl | hne
    · exact Nat.lt_succ_self _
    · exact Nat.lt_succ_of_lt (h.linked d (by simpa [hne] using (hlink d).1 hd))
  · exact hnodup
  · rw [hnext]
    exact hsess
  · intro d hd
    rw [hctx, Function.update_of_ne (by omega), h.unused d (by omega)]

end CtxRegistered

end Optee.TaManager
