import Optee.Digest
import Optee.Lib.Follows
import Optee.Lib.Run

/-!
# Digest operations follow their state machine

A digest operation is the data supplied since it was last started afresh, and while it is extracting
the bytes of the digest that were handed out.
-/

namespace Optee.Digest

variable (D : ℕ → Algorithm)

/-- What a digest operation is for: the data since it was started afresh, and the bytes handed out
while extracting. -/
structure Spec where
  algorithm : ℕ
  data : List UInt8
  given : Option (List UInt8)

/-- The digest of all data so far. -/
def Spec.digest (s : Spec) : List UInt8 := (D s.algorithm).hash s.data

/-- The next bytes of the digest that were not given out yet. -/
def Spec.next (s : Spec) (hashLen : ℕ) : List UInt8 :=
  ((s.digest D).drop (s.given.getD []).length).take hashLen

/-- An operation that has seen no data. -/
def Spec.fresh (algorithm : ℕ) : Spec := ⟨algorithm, [], none⟩

/-- What a request should do. -/
def Spec.request (s : Spec) : Request → TeeResult (Spec × Answer)
  | .update chunk =>
    if s.given.isSome then .error .badParameters
    else .ok ({ s with data := s.data ++ chunk }, .done)
  | .extract hashLen =>
    .ok ({ s with given := some (s.given.getD [] ++ s.next D hashLen) }, .bytes (s.next D hashLen))
  | .doFinal chunk hashLen =>
    if s.given.isSome then
      if chunk ≠ [] then .error .badParameters
      else .ok (.fresh s.algorithm, .bytes (s.next D hashLen))
    else if hashLen < (D s.algorithm).digestLength then
      .ok (s, .shortBuffer (D s.algorithm).digestLength)
    else .ok (.fresh s.algorithm, .bytes ((D s.algorithm).hash (s.data ++ chunk)))
  | .reset => .ok (.fresh s.algorithm, .done)

variable {ι : Type} [DecidableEq ι]

/-- What a call on one of several operations should do. -/
def specStep (specs : ι → Spec) : Call ι → TeeResult ((ι → Spec) × Answer)
  | .on i r => do
    let (s, answer) ← (specs i).request D r
    .ok (Function.update specs i s, answer)
  | .copy dst src =>
    if (specs dst).algorithm ≠ (specs src).algorithm then .error .generic
    else .ok (Function.update specs dst (specs src), .done)

/-- The flag is set exactly while extracting, and what was handed out are the first bytes of the
digest. -/
def Seen (ops : ι → Operation) (specs : ι → Spec) : Prop :=
  ∀ i, (ops i).extracting = (specs i).given.isSome ∧ (specs i).given.getD [] <+: (specs i).digest D

/-- Nothing but an extraction, or a final call with data, is for an operation that is extracting. -/
def Request.Sound (op : Operation) : Request → Prop
  | .extract _ => True
  | .doFinal chunk _ => op.operationState = .extracting → chunk ≠ []
  | _ => op.operationState ≠ .extracting

/-- The request is sound for its operation. -/
def Call.Sound (ops : ι → Operation) : Call ι → Prop
  | .on i r => r.Sound (ops i)
  | .copy _ _ => True

/-- How an operation stands for what was asked of it. -/
inductive Rel : Operation → Spec → Prop
  | collecting {a : ℕ} {st : OperationState} {b data : List UInt8} : st ≠ .extracting →
    Rel ⟨a, false, st, b, 0, .updated data⟩ ⟨a, data, none⟩
  | extracting {a : ℕ} {data g : List UInt8} {c : Context} : g <+: (D a).hash data →
    Rel ⟨a, true, .extracting, (D a).hash data, g.length, c⟩ ⟨a, data, some g⟩

variable {D} {op : Operation} {s : Spec}

theorem take_min_drop (l : List UInt8) (k n : ℕ) :
    (l.drop k).take (min (l.length - k) n) = (l.drop k).take n := by
  rw [← List.length_drop, Nat.min_comm, ← List.take_take, List.take_length]

theorem Rel.algorithm_eq (h : Rel D op s) : op.algorithm = s.algorithm := by
  cases h <;> rfl

theorem Rel.seen (h : Rel D op s) :
    op.extracting = s.given.isSome ∧ s.given.getD [] <+: s.digest D := by
  cases h with
  | collecting => exact ⟨rfl, List.nil_prefix⟩
  | extracting hg => exact ⟨rfl, hg⟩

/-- Extracting from the digest goes on where the bytes handed out end. -/
theorem extractBuffered_rel {a : ℕ} {data g : List UInt8} {c : Context} (n : ℕ)
    (hg : g <+: (D a).hash data) :
    Matches (Rel D) (.ok (extractBuffered D ⟨a, true, .extracting, (D a).hash data, g.length,
      c⟩ n) : TeeResult _)
      ((⟨a, data, some g⟩ : Spec).request D (.extract n)) := by
  have hlen := (D a).length_hash data
  obtain ⟨t, ht⟩ := hg
  have hdrop : ((D a).hash data).drop g.length = t := by rw [← ht, List.drop_left]
  have hsub : (D a).digestLength - g.length = t.length := by
    rw [← hlen, ← ht, List.length_append]; omega
  have hnext : (t.take (min t.length n)) = t.take n := by simpa using take_min_drop t 0 n
  refine ⟨?_, ?_⟩
  · simp only [Operation.buffered, Operation.blockSize, Spec.next, Spec.digest, Option.getD_some,
      hdrop, hsub, hnext]
  · simp only [Operation.blockSize, Spec.next, Spec.digest, Option.getD_some, hdrop, hsub, ← hnext]
    rw [show g.length + min t.length n = (g ++ t.take (min t.length n)).length by simp]
    refine .extracting ?_
    rw [← ht]
    exact (List.prefix_append_right_inj g).2 (List.take_prefix _ _)

theorem Rel.request (h : Rel D op s) {r : Request} (hr : r.Sound op) :
    Matches (Rel D) (op.request D r) (s.request D r) := by
  cases h with
  | @collecting a st b data hst =>
    cases r with
    | update chunk => exact ⟨rfl, .collecting (by decide)⟩
    | extract n =>
      have hextract := extractBuffered_rel (c := .final) n (List.nil_prefix (l := (D a).hash data))
      simpa [Operation.request, digestExtract, hst, assert, Context.digest, bind, Except.bind,
        Spec.request, Spec.next, Spec.digest] using hextract
    | doFinal chunk n =>
      by_cases hn : n < (D a).digestLength
      all_goals
        simp only [Operation.request, digestDoFinal, hst, false_and, if_false, hashFinal,
        Operation.blockSize, hn,
          if_true, Spec.request, Option.isSome_none, Bool.false_eq_true]
      · exact ⟨rfl, .collecting hst⟩
      · exact ⟨rfl, .collecting (by decide)⟩
    | reset => exact ⟨rfl, .collecting (by decide)⟩
  | @extracting a data g c hg =>
    cases r with
    | update chunk => exact absurd rfl hr
    | extract n => exact extractBuffered_rel n hg
    | doFinal chunk n => simp [Operation.request, digestDoFinal, Spec.request, hr rfl, Matches]
    | reset => exact absurd rfl hr

theorem Rel.not_request (h : Rel D op s) {r : Request} (hr : ¬r.Sound op) :
    ¬Matches (fun op' s' => op'.extracting = s'.given.isSome) (op.request D r) (s.request D r) := by
  cases h with
  | collecting hst => cases r <;> simp [Request.Sound, hst] at hr
  | extracting hg =>
    cases r with
    | update chunk => simp [Operation.request, Spec.request, Matches]
    | extract n => exact absurd trivial hr
    | doFinal chunk n =>
      obtain rfl : chunk = [] := by simpa [Request.Sound] using hr
      simp [Operation.request, digestDoFinal, Spec.request, Spec.fresh, initHashOperation, Matches]
    | reset => simp [Operation.request, resetOperation, Spec.request, Spec.fresh, Matches]

/-- All operations are as they should be. -/
def Related (D : ℕ → Algorithm) (ops : ι → Operation) (specs : ι → Spec) : Prop :=
  ∀ i, Rel D (ops i) (specs i)

theorem related_seen (ops : ι → Operation) (specs : ι → Spec)
    (h : Related D ops specs) : Seen D ops specs :=
  fun i => (h i).seen

theorem Related.update {ops : ι → Operation} {specs : ι → Spec} (h : Related D ops specs) {i : ι}
    (hrel : Rel D op s) :
    Related D (Function.update ops i op) (Function.update specs i s) := fun j => by
  by_cases hj : j = i
  · subst hj
    simpa using hrel
  · simpa [hj] using h j

/-- A call on the operations is the call on what they have absorbed. -/
theorem step_matches (ops : ι → Operation) (specs : ι → Spec) (c : Call ι) (h : Related D ops specs)
    (hc : c.Sound ops) : Matches (Related D) (step D ops c) (specStep D specs c) := by
  cases c with
  | on i r => exact matches_bind.2 (((h i).request hc).imp fun _ _ => h.update)
  | copy dst src =>
    rw [step, specStep, copyOperation, (h dst).algorithm_eq, (h src).algorithm_eq]
    split_ifs with ha
    · rfl
    · refine ⟨rfl, h.update ?_⟩
      rw [not_not.1 ha, ← (h src).algorithm_eq]
      exact h src

theorem step_not_matches (ops : ι → Operation) (specs : ι → Spec) (c : Call ι)
    (h : Related D ops specs) (hc : ¬c.Sound ops) :
    ¬Matches (Seen D) (step D ops c) (specStep D specs c) := by
  cases c with
  | on i r =>
    exact fun hm =>
      (h i).not_request hc ((matches_bind.1 hm).imp fun _ _ hseen => by simpa using (hseen i).1)
  | copy dst src => exact absurd trivial hc

/-- The calls follow the machine if and only if none updates, resets or finishes an operation that
is extracting. -/
theorem digest_follows_iff (D : ℕ → Algorithm) (algorithm : ι → ℕ) (calls : List (Call ι)) :
    Follows (step D) (specStep D) (Seen D) calls (fun i => allocateOperation D (algorithm i))
        (fun i => .fresh (algorithm i))
      ↔ Heeds (step D) (fun ops c => Call.Sound ops c) calls fun i =>
        allocateOperation D (algorithm i) :=
  follows_iff_heeds related_seen step_matches step_not_matches fun _ => .collecting (by decide)

/-- A digest of two bytes: how much data there was, and 7. -/
def counting : Algorithm := ⟨2, fun m => [UInt8.ofNat m.length, 7], [0, 0], fun _ => rfl⟩

/-- The operation after some requests. -/
def states (calls : List Request) : TeeResult Operation :=
  exec (fun op r => (op.request (fun _ => counting) r).map Prod.fst)
    (allocateOperation (fun _ => counting) 0) calls

/-- After a reset an extract fails its assertion, a finished operation keeps the flag, and an update
is not refused. -/
theorem digest_not_followed :
    states [.extract 1, .reset, .extract 1] = .error .panic
      ∧ (∃ op, states [.extract 1, .doFinal [] 1] = .ok op ∧ op.operationState = .initial
        ∧ op.extracting = true)
      ∧ ∃ op, states [.extract 1, .update [1]] = .ok op :=
  ⟨rfl, ⟨_, rfl, rfl, rfl⟩, _, rfl⟩

end Optee.Digest
