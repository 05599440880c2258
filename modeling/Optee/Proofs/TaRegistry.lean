import Optee.Proofs.TaSession

/-!
# The sessions of all lists

The sessions, their lists and the roles of the frames of all threads, without what the frames are
(`Registered`). It is kept where one frame moves from one role to another for one session
(`Registered.change`) and where a session is put on a list (`Registered.alloc`).
-/

namespace Optee.TaManager

variable {n : ℕ} {m m' : Manager n} {R R' : Fin n → List (ℕ × Role)} {t u : Fin n} {a b : ℕ}
  {l : List (ℕ × Role)} {ρ ρ' : Option Role} {σ' : Session n}

/-! ## What the frames have -/

/-- The weight of a role, if it is one for the session. -/
def held {κ : Type} (w : κ → ℕ) (a : ℕ) (p : ℕ × κ) : ℕ := if p.1 = a then w p.2 else 0

/-- A role for a session. -/
def roleAt {κ : Type} (a : ℕ) (ρ : Option κ) : List (ℕ × κ) := (ρ.map (a, ·)).toList

theorem sum_held_at {κ : Type} {ρ : Option κ} (w : κ → ℕ) :
    ((roleAt a ρ).map (held w b)).sum = if a = b then (ρ.map w).getD 0 else 0 := by
  cases ρ <;> simp [roleAt, held]

/-- What all frames have of a session. -/
def hasOf (R : Fin n → List (ℕ × Role)) (a : ℕ) : Has where
  refs := total (held Role.refs a) R
  opens := total (held Role.opens a) R
  closes := total (held Role.closes a) R
  uses := total (held Role.uses a) R
  unlinks := total (held Role.unlinks a) R
  offs := total (held Role.offs a) R

theorem hasOf_at : hasOf (Function.update R t (roleAt a ρ ++ l)) a
      = (hasOf (Function.update R t l) a).add (Role.has ρ) := by
  cases ρ <;> simp [hasOf, total_update_append, sum_held_at, Has.add, Role.has]

theorem hasOf_at_ne (h : b ≠ a) :
    hasOf (Function.update R t (roleAt a ρ ++ l)) b = hasOf (Function.update R t l) b := by
  simp [hasOf, total_update_append, sum_held_at, h.symm]

theorem bounds_hasOf : Bounds (hasOf R a) := by
  have hle : ∀ w w' : Role → ℕ, (∀ r, w r ≤ w' r) → total (held w a) R ≤ total (held w' a) R :=
    fun w w' h => total_mono fun p => by
      unfold held
      split_ifs
      exacts [h p.2, le_rfl]
  have hadd : ∀ w w' : Role → ℕ, total (held w a) R + total (held w' a) R
      = total (held (fun r => w r + w' r) a) R := fun w w' => by
    rw [← total_add]
    congr 1
    funext p
    unfold held
    split_ifs <;> rfl
  refine ⟨?_, hle _ _ ?_, ?_⟩
  · simp only [hasOf, hadd]
    exact hle _ _ (by rintro (_ | _) <;> decide)
  · rintro (_ | _) <;> decide
  · simp only [hasOf, hadd]
    exact hle _ _ (by rintro (_ | _) <;> decide)

theorem hasOf_pos {r : Role} (h : (a, r) ∈ R t) :
    0 < (hasOf R a).opens + (hasOf R a).closes + (hasOf R a).uses := by
  have ho : held Role.opens a (a, r) ≤ total (held Role.opens a) R := le_total h
  have hc : held Role.closes a (a, r) ≤ total (held Role.closes a) R := le_total h
  have hu : held Role.uses a (a, r) ≤ total (held Role.uses a) R := le_total h
  have hr : 0 < r.opens + r.closes + r.uses := by cases r <;> decide
  simp only [held, if_true] at ho hc hu
  simp only [hasOf]
  omega

/-! ## The registry -/

/-- Every session is as the frames say, and lists have those that are open. -/
structure Registered (m : Manager n) (R : Fin n → List (ℕ × Role)) : Prop where
  sess : ∀ a < m.nextSess, SessOk (m.sess a) (a ∈ m.lists (m.sess a).owner) (hasOf R a)
  lock : ∀ a < m.nextSess, (m.sess a).freed = false → ∀ t,
    ((R t).map (held Role.locks a)).sum = if (m.sess a).lockThread = some t then 1 else 0
  fresh : ∀ t, ∀ p ∈ R t, p.1 < m.nextSess
  nodup : ∀ o, (m.lists o).Nodup
  mem : ∀ o, ∀ a ∈ m.lists o, a < m.nextSess ∧ (m.sess a).owner = o ∧ (m.sess a).id ≠ 0
  ids : ∀ o, ∀ a ∈ m.lists o, ∀ b ∈ m.lists o, (m.sess a).id = (m.sess b).id → a = b

theorem Registered.empty : Registered (.empty : Manager n) fun _ => [] where
  sess _ h := absurd h (Nat.not_lt_zero _)
  lock _ h := absurd h (Nat.not_lt_zero _)
  fresh _ _ h := absurd h List.not_mem_nil
  nodup _ := List.nodup_nil
  mem _ _ h := absurd h List.not_mem_nil
  ids _ _ h := absurd h List.not_mem_nil

namespace Registered

variable (h : Registered m R)
include h

theorem not_freed {r : Role} (hr : (a, r) ∈ R t) : (m.sess a).freed = false := by
  have hs := h.sess a (h.fresh t _ hr)
  have hpos := hasOf_pos hr
  unfold SessOk at hs
  split at hs
  · omega
  · exact Bool.eq_false_iff.2 ‹_›

theorem alive (ha : a < m.nextSess) (hf : (m.sess a).freed = false) :
    Alive (m.sess a) (a ∈ m.lists (m.sess a).owner) (hasOf R a) := by
  have hs := h.sess a ha
  rwa [SessOk, hf] at hs

theorem listed_not_freed {o : Option ℕ} (ha : a ∈ m.lists o) : (m.sess a).freed = false := by
  obtain ⟨hlt, ho, -⟩ := h.mem o a ha
  have hs := h.sess a hlt
  unfold SessOk at hs
  split at hs
  · exact absurd (ho ▸ ha) hs.1
  · exact Bool.eq_false_iff.2 ‹_›

theorem lock_eq {r : Role} (hr : (a, r) ∈ R t) (hl : r.locks = 1) :
    (m.sess a).lockThread = some t := by
  have hsum := h.lock a (h.fresh t _ hr) (h.not_freed hr) t
  have hle : held Role.locks a (a, r) ≤ ((R t).map (held Role.locks a)).sum :=
    List.single_le_sum (fun _ _ => Nat.zero_le _) _ (List.mem_map_of_mem hr)
  simp only [held, if_true, hl] at hle
  by_contra hne
  rw [if_neg hne] at hsum
  omega

theorem opener_alone {r r' : Role} (hR : R t = (a, r) :: l) (hr : (a, r') ∈ Function.update R t l u)
    (hop : r = .opener ∨ r' = .opener) : False := by
  have hmem : (a, r) ∈ R t := hR ▸ List.mem_cons_self
  have hphase := (h.alive (h.fresh t _ hmem) (h.not_freed hmem)).phase
  have hRt : R = Function.update R t (roleAt a (some r) ++ l) := by
    change R = Function.update R t ((a, r) :: l)
    rw [← hR, Function.update_eq_self]
  rw [hRt, hasOf_at] at hphase
  have hpos := hasOf_pos hr
  have hopen : held Role.opens a (a, r') ≤ (hasOf (Function.update R t l) a).opens := le_total hr
  have hone : 0 < r.opens + r.closes + r.uses := by cases r <;> decide
  have hops : 0 < r.opens + r'.opens := by rcases hop with rfl | rfl <;> simp [Role.opens]
  simp only [held, if_true, Has.add, Role.has] at hopen hphase
  omega

theorem congr (hsess : m'.sess = m.sess) (hnext : m'.nextSess = m.nextSess)
    (hlists : m'.lists = m.lists) : Registered m' R where
  sess := by rw [hsess, hnext, hlists]; exact h.sess
  lock := by rw [hsess, hnext]; exact h.lock
  fresh := by rw [hnext]; exact h.fresh
  nodup := by rw [hlists]; exact h.nodup
  mem := by rw [hsess, hnext, hlists]; exact h.mem
  ids := by rw [hsess, hlists]; exact h.ids

theorem change (hR : R t = roleAt a ρ ++ l) (hR' : R' = Function.update R t (roleAt a ρ' ++ l))
    (ha : a < m.nextSess) (hf : (m.sess a).freed = false)
    (hm : (m.sess a).Move t (hasOf R a) ρ σ' ρ') (hsess : m'.sess = Function.update m.sess a σ')
    (hnext : m'.nextSess = m.nextSess)
    (hlists : m'.lists = if Removes ρ ρ' then (m.unlist a).lists else m.lists) :
    Registered m' R' := by
  have hRt : R = Function.update R t (roleAt a ρ ++ l) := by rw [← hR, Function.update_eq_self]
  have hid : ∀ b, (m'.sess b).id = (m.sess b).id := fun b => by
    rw [hsess]
    rcases eq_or_ne b a with rfl | hne
    · rw [Function.update_self, hm.id_eq]
    · rw [Function.update_of_ne hne]
  have howner : ∀ b, (m'.sess b).owner = (m.sess b).owner := fun b => by
    rw [hsess]
    rcases eq_or_ne b a with rfl | hne
    · rw [Function.update_self, hm.owner_eq]
    · rw [Function.update_of_ne hne]
  have hmem : ∀ o b, b ∈ m'.lists o ↔ b ∈ m.lists o ∧ ¬ (b = a ∧ Removes ρ ρ') := by
    intro o b
    rw [hlists]
    by_cases hrem : Removes ρ ρ'
    · rw [if_pos hrem]
      simp only [Manager.unlist, hrem, and_true]
      rcases eq_or_ne o (m.sess a).owner with rfl | hne
      · rw [Function.update_self, (h.nodup _).mem_erase_iff]
        tauto
      · rw [Function.update_of_ne hne]
        exact ⟨fun hb => ⟨hb, fun hba => hne (hba ▸ (h.mem o b hb).2.1).symm⟩, fun hb => hb.1⟩
    · simp [hrem]
  constructor
  · intro b hb
    rw [hnext] at hb
    rw [howner, hmem, hR']
    rcases eq_or_ne b a with rfl | hne
    · rw [hasOf_at, hsess, Function.update_self]
      have halive := h.alive hb hf
      rw [hRt, hasOf_at] at halive hm
      simpa using halive.move bounds_hasOf hm hf
    · rw [hasOf_at_ne hne, hsess, Function.update_of_ne hne]
      have hb' := h.sess b hb
      rw [hRt, hasOf_at_ne hne] at hb'
      simpa [hne] using hb'
  · intro b hb hbf u
    rw [hnext] at hb
    have hsplit : ∀ ρ : Option Role, ∀ b u,
        ((Function.update R t (roleAt a ρ ++ l) u).map (held Role.locks b)).sum
          = ((Function.update R t l u).map (held Role.locks b)).sum
            + (if u = t then (if a = b then Role.lockOf ρ else 0) else 0) := by
      intro ρ b u
      rcases eq_or_ne u t with rfl | hut
      · rw [Function.update_self, Function.update_self, List.map_append, List.sum_append,
          sum_held_at, if_pos rfl, add_comm]
        cases ρ <;> simp [Role.lockOf]
      · simp [hut]
    rw [hR', hsplit, hsess]
    rw [hsess] at hbf
    rcases eq_or_ne b a with rfl | hne
    · rw [Function.update_self] at hbf ⊢
      simp only [if_true]
      refine hm.lock_kept hbf
        (fun v => ((Function.update R t l v).map (held Role.locks b)).sum) (fun v => ?_) u
      have hv := h.lock b hb hf v
      rw [hRt, hsplit] at hv
      simpa using hv
    · rw [Function.update_of_ne hne] at hbf ⊢
      have hv := h.lock b hb hbf u
      rw [hRt, hsplit] at hv
      simpa [hne.symm] using hv
  · intro u p hp
    rw [hnext]
    rw [hR'] at hp
    rcases eq_or_ne u t with rfl | hut
    · rw [Function.update_self, List.mem_append] at hp
      rcases hp with hp | hp
      · cases ρ' with
        | none => simp [roleAt] at hp
        | some r =>
          simp only [roleAt, Option.map_some, Option.toList_some, List.mem_singleton] at hp
          rwa [hp]
      · exact h.fresh u p (by rw [hR]; exact List.mem_append_right _ hp)
    · rw [Function.update_of_ne hut] at hp
      exact h.fresh u p hp
  · intro o
    rw [hlists]
    split
    · rcases eq_or_ne o (m.sess a).owner with rfl | hne
      · simp only [Manager.unlist, Function.update_self]
        exact (h.nodup _).erase a
      · simp only [Manager.unlist, Function.update_of_ne hne]
        exact h.nodup o
    · exact h.nodup o
  · intro o b hb
    obtain ⟨hlt, ho, hi⟩ := h.mem o b ((hmem o b).1 hb).1
    exact ⟨hnext ▸ hlt, by rw [howner, ho], by rwa [hid]⟩
  · intro o b hb c hc hbc
    rw [hid, hid] at hbc
    exact h.ids o b ((hmem o b).1 hb).1 c ((hmem o c).1 hc).1 hbc

theorem alloc {o : Option ℕ} {id : BitVec 32} {ctx : Option ℕ}
    (hR' : R' = Function.update R t (roleAt m.nextSess (some .opener) ++ R t)) (hid : id ≠ 0)
    (hnew : ∀ b ∈ m.lists o, (m.sess b).id ≠ id)
    (hsess : m'.sess = Function.update m.sess m.nextSess { Session.zero with
      id := id, owner := o, refCount := 1, ctx := ctx })
    (hnext : m'.nextSess = m.nextSess + 1)
    (hlists : m'.lists = Function.update m.lists o (m.lists o ++ [m.nextSess])) :
    Registered m' R' := by
  have hunused : ∀ w, ∀ u, ∀ p ∈ R u, held w m.nextSess p = 0 := fun w u p hp =>
    if_neg (h.fresh u p hp).ne
  have hnone : hasOf R m.nextSess = ⟨0, 0, 0, 0, 0, 0⟩ := by
    simp only [hasOf, total_eq_zero.2 (hunused _)]
  have hold : ∀ b, b ≠ m.nextSess → m'.sess b = m.sess b := fun b hb => by
    rw [hsess, Function.update_of_ne hb]
  have hmem : ∀ o' b, b ∈ m'.lists o' ↔ b ∈ m.lists o' ∨ b = m.nextSess ∧ o' = o := by
    intro o' b
    rw [hlists]
    rcases eq_or_ne o' o with rfl | hne
    · simp
    · simp [hne]
  have hlt : ∀ {o' b}, b ∈ m.lists o' → b ≠ m.nextSess := fun hb => (h.mem _ _ hb).1.ne
  have hself : Function.update R t (R t) = R := Function.update_eq_self t R
  constructor
  · intro b hb
    rw [hR']
    rcases eq_or_ne b m.nextSess with rfl | hne
    · rw [hasOf_at, hself, hnone, hsess, Function.update_self]
      exact ⟨rfl, by simp [hmem, Has.add, Role.has, Role.offs], rfl, by decide,
        .inr ⟨rfl, rfl, rfl⟩⟩
    · rw [hasOf_at_ne hne, hself, hold b hne, hmem]
      have hb' := h.sess b (by omega)
      simpa [hne] using hb'
  · intro b hb hbf u
    rw [hR']
    rcases eq_or_ne b m.nextSess with rfl | hne
    · rw [hsess, Function.update_self]
      have hz : ∀ v, ((R v).map (held Role.locks m.nextSess)).sum = 0 := fun v =>
        List.sum_eq_zero fun _ hx => by
          obtain ⟨p, hp, rfl⟩ := List.mem_map.1 hx
          exact hunused _ v p hp
      rcases eq_or_ne u t with rfl | hut
      · simp [sum_held_at, hz, Role.locks, Session.zero]
      · simp [Function.update_of_ne hut, hz, Session.zero]
    · rw [hold b hne] at hbf ⊢
      have hb' := h.lock b (by omega) hbf u
      rcases eq_or_ne u t with rfl | hut
      · simpa [sum_held_at, hne.symm] using hb'
      · simpa [Function.update_of_ne hut] using hb'
  · intro u p hp
    rw [hR'] at hp
    rcases eq_or_ne u t with rfl | hut
    · rw [Function.update_self, List.mem_append] at hp
      rcases hp with hp | hp
      · simp only [roleAt, Option.map_some, Option.toList_some, List.mem_singleton] at hp
        rw [hp, hnext]
        exact Nat.lt_succ_self _
      · exact hnext ▸ Nat.lt_succ_of_lt (h.fresh u p hp)
    · rw [Function.update_of_ne hut] at hp
      exact hnext ▸ Nat.lt_succ_of_lt (h.fresh u p hp)
  · intro o'
    rw [hlists]
    rcases eq_or_ne o' o with rfl | hne
    · rw [Function.update_self]
      exact (h.nodup o').append (List.nodup_singleton _) (by simpa using fun hb => hlt hb rfl)
    · rw [Function.update_of_ne hne]
      exact h.nodup o'
  · intro o' b hb
    rcases (hmem o' b).1 hb with hb | ⟨rfl, rfl⟩
    · obtain ⟨hlt', ho, hi⟩ := h.mem o' b hb
      rw [hold b (hlt hb)]
      exact ⟨by omega, ho, hi⟩
    · rw [hsess, Function.update_self]
      exact ⟨by omega, rfl, hid⟩
  · intro o' b hb c hc hbc
    rcases (hmem o' b).1 hb with hb | ⟨rfl, rfl⟩ <;> rcases (hmem _ c).1 hc with hc | ⟨rfl, ho⟩
    · rw [hold b (hlt hb), hold c (hlt hc)] at hbc
      exact h.ids o' b hb c hc hbc
    · subst ho
      rw [hold b (hlt hb), hsess, Function.update_self] at hbc
      exact absurd hbc (hnew b hb)
    · rw [hold c (hlt hc), hsess, Function.update_self] at hbc
      exact absurd hbc.symm (hnew c hc)
    · rfl

end Registered

end Optee.TaManager
