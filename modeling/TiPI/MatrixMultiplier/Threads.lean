import TiPI.Lib.Run
import TiPI.MatrixMultiplier.Matrix

/-!
# Products by several threads

`QMatrix::multiply` of the versions V3 and V4: `m` workers and the thread that calls `multiply`, the
last one of `m + 1`. Their element updates interleave in any way.
-/

namespace TiPI.MatrixMultiplier

/-- What a thread does with its rows: the size, `start` and `end`. -/
abbrev MultForThread := Nat → Nat → Nat → List Update

/-- The updates of thread `t`, where `dist` is `size / n_threads`. -/
def program (multForThread : MultForThread) (size m : Nat) (t : Fin (m + 1)) : List Update :=
  let dist := size / (m + 1)
  if t.val < m then multForThread size (t.val * dist) ((t.val + 1) * dist)
  else multForThread size (m * dist) size

/-- A call of `multiply` after the sizes were checked. -/
structure Product (α : Type) (m : Nat) where
  C : QMatrix α
  /-- how many of the workers were made -/
  started : Nat
  /-- what the threads have still to do -/
  rest : Fin (m + 1) → List Update
  joined : Nat
  /-- the updates so far; no step reads it -/
  done : List Update

inductive Action (m : Nat)
  | start
  | update (t : Fin (m + 1))
  | join

namespace Product

variable {α : Type} {m : Nat}

/-- The call returns. -/
def Returned (s : Product α m) : Prop :=
  s.started = m ∧ s.rest (Fin.last m) = [] ∧ s.joined = m

variable [Zero α] [Add α] [Mul α]

def init (multForThread : MultForThread) (size m : Nat) (memory : Nat → α) : Product α m where
  C := QMatrix.new size memory
  started := 0
  rest := program multForThread size m
  joined := 0
  done := []

/-- The workers run as soon as they are made, the calling thread does its part when all of them are,
and joins them in order behind it. -/
def step (A B : QMatrix α) (s : Product α m) : Action m → Option (Product α m)
  | .start => if s.started < m then some { s with started := s.started + 1 } else none
  | .update t =>
    if t.val < s.started ∨ s.started = m then
      match s.rest t with
      | [] => none
      | u :: us => some { s with
          C := QMatrix.accumulate A B s.C u
          rest := Function.update s.rest t us
          done := s.done ++ [u] }
    else none
  | .join =>
    if h : s.joined < m then
      if s.started = m ∧ s.rest (Fin.last m) = [] ∧ s.rest ⟨s.joined, Nat.lt_succ_of_lt h⟩ = [] then
        some { s with joined := s.joined + 1 }
      else none
    else none

end Product

namespace V3

def multForThread : MultForThread := fun size start stop =>
  forLoop start stop 1 fun i => forLoop 0 size 1 fun k => forLoop 0 size 1 fun j => [⟨i, k, j⟩]

variable {α : Type} [Zero α] [Add α] [Mul α]

def multiply (A B : QMatrix α) (m : Nat) (memory : Nat → α) : Except String (Product α m) := do
  QMatrix.checkSizes A B
  return Product.init multForThread A.size m memory

end V3

namespace V4

/-- `T` -/
def tile : Nat := 32

def multForThread : MultForThread := fun size start stop =>
  forLoop start stop tile fun _is => forLoop 0 size tile fun _js =>
    forLoop start tile 1 fun i => forLoop 0 size 1 fun k => forLoop 0 tile 1 fun j => [⟨i, k, j⟩]

variable {α : Type} [Zero α] [Add α] [Mul α]

def multiply (A B : QMatrix α) (m : Nat) (memory : Nat → α) : Except String (Product α m) := do
  QMatrix.checkSizes A B
  return Product.init multForThread A.size m memory

end V4

/-! ### What a step does -/

section

variable {α : Type} [Add α] [Mul α] {A B : QMatrix α} {m n : Nat} {s s' : Product α m}
  {a : Action m} {f : MultForThread} {memory : Nat → α}

namespace Product

/-- The steps, one constructor for each action. -/
inductive Steps (A B : QMatrix α) (s : Product α m) : Product α m → Prop
  | start (h : s.started < m) : Steps A B s { s with started := s.started + 1 }
  | update (t : Fin (m + 1)) {u : Update} {us : List Update}
      (h : t.val < s.started ∨ s.started = m) (hu : s.rest t = u :: us) :
      Steps A B s { s with
        C := QMatrix.accumulate A B s.C u
        rest := Function.update s.rest t us
        done := s.done ++ [u] }
  | join (h : s.joined < m) (hstarted : s.started = m)
      (hjoined : s.rest ⟨s.joined, Nat.lt_succ_of_lt h⟩ = []) :
      Steps A B s { s with joined := s.joined + 1 }

lemma steps_of_step (h : step A B s a = some s') : Steps A B s s' := by
  cases a with
  | start =>
    simp only [step] at h
    split at h
    · next hlt =>
      cases h
      exact .start hlt
    · cases h
  | update t =>
    simp only [step] at h
    split at h
    · next hrun =>
      split at h
      · cases h
      · next u us hu =>
        cases h
        exact .update t hrun hu
    · cases h
  | join =>
    simp only [step] at h
    split at h
    · next hlt =>
      split at h
      · next hready =>
        cases h
        exact .join hlt hready.1 hready.2.2
      · cases h
    · cases h

/-! ### Calls come to an end -/

/-- The steps that a call has still to take. -/
def pending (s : Product α m) : Nat :=
  (m - s.started) + ∑ t, (s.rest t).length + (m - s.joined)

lemma pending_step (h : step A B s a = some s') : s'.pending + 1 = s.pending := by
  unfold pending
  cases steps_of_step h with
  | start hlt =>
    simp only
    omega
  | @update t u us hrun hu =>
    have hsum : ∑ t', (s.rest t').length =
        (∑ t', (Function.update s.rest t us t').length) + 1 := by
      rw [← Finset.add_sum_erase _ _ (Finset.mem_univ t),
        ← Finset.add_sum_erase _ (fun t' => (Function.update s.rest t us t').length)
          (Finset.mem_univ t), Function.update_self, hu, List.length_cons]
      have hothers : ∑ t' ∈ Finset.univ.erase t, (Function.update s.rest t us t').length =
          ∑ t' ∈ Finset.univ.erase t, (s.rest t').length := by
        refine Finset.sum_congr rfl fun t' ht' => ?_
        rw [Function.update_of_ne (Finset.ne_of_mem_erase ht')]
      rw [hothers]
      omega
    simp only
    omega
  | join hlt hstarted hjoined =>
    simp only
    omega

lemma length_add_pending {as : List (Action m)} {p₀ : Product α m}
    (h : AllSteps (step A B) p₀ as s) : as.length + s.pending = p₀.pending := by
  induction h with
  | nil => rw [List.length_nil, Nat.zero_add]
  | snoc _ _ hstep ih =>
    rw [← ih, ← pending_step hstep, List.length_append, List.length_singleton]
    omega

/-! ### What holds along a call -/

variable [Zero α]

/-- What holds in every state of a call. -/
structure Inv (A B : QMatrix α) (f : MultForThread) (n : Nat) (memory : Nat → α)
    (s : Product α m) : Prop where
  interleaved : Interleaved (program f n m) s.rest s.done
  result : s.C = s.done.foldl (QMatrix.accumulate A B) (QMatrix.new n memory)
  started_le : s.started ≤ m
  joined_le : s.joined ≤ m
  finished : ∀ t : Fin (m + 1), t.val < s.joined → s.rest t = []

lemma inv_init : Inv A B f n memory (init f n m memory) where
  interleaved := .start
  result := rfl
  started_le := Nat.zero_le m
  joined_le := Nat.zero_le m
  finished _ ht := absurd ht (Nat.not_lt_zero _)

lemma Inv.step (hs : Inv A B f n memory s) (h : Product.step A B s a = some s') :
    Inv A B f n memory s' := by
  cases steps_of_step h with
  | start hlt => exact { hs with started_le := hlt }
  | @update t u us hrun hu =>
    refine ⟨hs.interleaved.step hu, ?_, hs.started_le, hs.joined_le, fun t' ht' => ?_⟩
    · rw [List.foldl_append, ← hs.result]
      rfl
    · have hdone := hs.finished t' ht'
      have hne : t' ≠ t := by
        rintro rfl
        rw [hu] at hdone
        cases hdone
      simp only [Function.update_of_ne hne, hdone]
  | join hlt hstarted hjoined =>
    refine ⟨hs.interleaved, hs.result, hs.started_le, hlt, fun t ht => ?_⟩
    rcases Nat.lt_succ_iff_lt_or_eq.1 ht with hbefore | heq
    · exact hs.finished t hbefore
    · rw [← hjoined]
      exact congrArg s.rest (Fin.ext heq)

lemma Inv.of_reach (h : Reach (Product.step A B) (init f n m memory) s) :
    Inv A B f n memory s :=
  h.invariant inv_init fun _ _ _ hs _ hstep => hs.step hstep

/-- When the call returns, every thread has come to its end. -/
lemma Inv.rest_nil (hs : Inv A B f n memory s) (h : s.Returned) (t : Fin (m + 1)) :
    s.rest t = [] := by
  obtain ⟨-, hlast, hjoined⟩ := h
  by_cases ht : t.val < m
  · exact hs.finished t (by rwa [hjoined])
  · have heq : t = Fin.last m := Fin.ext (Nat.le_antisymm (Nat.le_of_lt_succ t.isLt)
      (Nat.not_lt.1 ht))
    rw [heq, hlast]

/-- A call that has not returned goes on. -/
lemma Inv.exists_step (hs : Inv A B f n memory s) (h : ¬ s.Returned) :
    ∃ a s', Product.step A B s a = some s' := by
  by_cases hstarted : s.started = m
  · by_cases hrest : ∀ t, s.rest t = []
    · have hjoined : s.joined < m := by
        refine Nat.lt_of_le_of_ne hs.joined_le fun heq => h ⟨hstarted, hrest _, heq⟩
      refine ⟨.join, { s with joined := s.joined + 1 }, ?_⟩
      rw [Product.step, dif_pos hjoined, if_pos ⟨hstarted, hrest _, hrest _⟩]
    · obtain ⟨t, ht⟩ := not_forall.1 hrest
      obtain ⟨u, us, hu⟩ := List.exists_cons_of_ne_nil ht
      refine ⟨.update t, { s with
        C := QMatrix.accumulate A B s.C u
        rest := Function.update s.rest t us
        done := s.done ++ [u] }, ?_⟩
      simp only [Product.step, if_pos (Or.inr hstarted), hu]
  · refine ⟨.start, { s with started := s.started + 1 }, ?_⟩
    rw [Product.step, if_pos (Nat.lt_of_le_of_ne hs.started_le hstarted)]

/-- Some call returns. -/
lemma exists_returned : ∃ s, Reach (step A B) (init f n m memory) s ∧ s.Returned := by
  obtain ⟨s, hs, hstuck⟩ := @exists_stuck _ _ (step A B) (init f n m memory) _
    fun as s' h => Nat.le.intro (length_add_pending h)
  refine ⟨s, hs, ?_⟩
  by_contra hno
  obtain ⟨a, s', hstep⟩ := (Inv.of_reach hs).exists_step hno
  rw [hstuck a] at hstep
  cases hstep

/-! ### Where every element has one thread -/

/-- Every element gets its products from one thread, in ascending `k`. -/
structure Owned (n m : Nat) (f : MultForThread) : Prop where
  inRange : ∀ t, ∀ u ∈ program f n m t, u.i < n ∧ u.k < n ∧ u.j < n
  owner : ∀ i < n, ∀ j < n, ∃ t, (program f n m t).filter (Update.isAt i j) = products n i j ∧
    ∀ t' ≠ t, (program f n m t').filter (Update.isAt i j) = []

lemma Owned.ordered (hf : Owned n m f) (hs : Inv A B f n memory s) (h : s.Returned) :
    Ordered n s.done where
  inRange u hu := by
    obtain ⟨t, ht⟩ := hs.interleaved.mem_prog.2 u hu
    exact hf.inRange t u ht
  inOrder i hi j hj := by
    obtain ⟨t, hprog, hother⟩ := hf.owner i hi j hj
    obtain ⟨hdone, -⟩ := hs.interleaved.filter_eq (Update.isAt i j) t hother
    rw [hs.rest_nil h t, List.filter_nil, List.append_nil, hprog] at hdone
    exact hdone

/-- A call does what the plain product does: it ends, whatever its threads do, and its result is
that of V1. -/
structure Agrees (A B : QMatrix α) (memory : Nat → α) (p₀ : Product α m) : Prop where
  ends : ∃ N, ∀ as s, AllSteps (step A B) p₀ as s → as.length ≤ N
  goesOn : ∀ s, Reach (step A B) p₀ s → ¬ s.Returned → ∃ a s', step A B s a = some s'
  result : ∀ s, Reach (step A B) p₀ s → s.Returned → V1.multiply A B (m + 1) memory = .ok s.C

lemma Owned.agrees (hf : Owned n m f) (a b : Nat → α) :
    Agrees ⟨n, a⟩ ⟨n, b⟩ memory (init f n m memory) where
  ends := ⟨_, fun _ _ h => Nat.le.intro (length_add_pending h)⟩
  goesOn _ hs h := (Inv.of_reach hs).exists_step h
  result s hs h := by
    have hinv := Inv.of_reach hs
    rw [V1.multiply_eq, hinv.result, (V1.ordered n).foldl_eq (hf.ordered hinv h) rfl]

end Product

end

/-! ### The rows of the threads -/

section

variable {m n i : Nat}

/-- The rows from `start` up to `stop` of a thread. -/
def start (n m : Nat) (t : Fin (m + 1)) : Nat := t.val * (n / (m + 1))

def stop (n m : Nat) (t : Fin (m + 1)) : Nat :=
  if t.val < m then (t.val + 1) * (n / (m + 1)) else n

lemma program_eq (f : MultForThread) (n m : Nat) (t : Fin (m + 1)) :
    program f n m t = f n (start n m t) (stop n m t) := by
  unfold program start stop
  by_cases ht : t.val < m
  · rw [if_pos ht, if_pos ht]
  · have hlast : t.val = m := Nat.le_antisymm (Nat.le_of_lt_succ t.isLt) (Nat.not_lt.1 ht)
    rw [if_neg ht, if_neg ht, hlast]

lemma stop_le (t : Fin (m + 1)) : stop n m t ≤ n := by
  unfold stop
  split
  · next ht =>
    calc (t.val + 1) * (n / (m + 1)) ≤ (m + 1) * (n / (m + 1)) :=
          Nat.mul_le_mul_right _ (Nat.succ_le_succ (Nat.le_of_lt ht))
      _ ≤ n := Nat.mul_div_le n (m + 1)
  · exact Nat.le.refl

/-- The rows of the threads are a partition, also where `m + 1` does not divide `n`. -/
lemma existsUnique_thread (hi : i < n) : ∃! t : Fin (m + 1), start n m t ≤ i ∧ i < stop n m t := by
  have hexists : ∃ t : Fin (m + 1), start n m t ≤ i ∧ i < stop n m t := by
    unfold start stop
    generalize n / (m + 1) = dist
    by_cases hlast : m * dist ≤ i
    · have hnot : ¬ (Fin.last m).val < m := Nat.lt_irrefl m
      refine ⟨Fin.last m, hlast, ?_⟩
      rwa [if_neg hnot]
    · have hbefore := Nat.not_le.1 hlast
      have hthread : i / dist < m := Nat.div_lt_of_lt_mul (by rwa [Nat.mul_comm])
      have hdist : 0 < dist := Nat.pos_of_mul_pos_left (Nat.zero_lt_of_lt hbefore)
      refine ⟨⟨i / dist, Nat.lt_succ_of_lt hthread⟩, Nat.div_mul_le_self i dist, ?_⟩
      rw [if_pos hthread, Nat.succ_mul]
      exact Nat.lt_div_mul_add hdist
  have hdisjoint : ∀ t t' : Fin (m + 1), t < t' → i < stop n m t → ¬ start n m t' ≤ i := by
    intro t t' hlt hstop hstart
    have ht : t.val < m := Nat.lt_of_lt_of_le hlt (Nat.le_of_lt_succ t'.isLt)
    rw [stop, if_pos ht] at hstop
    have hle : (t.val + 1) * (n / (m + 1)) ≤ start n m t' := Nat.mul_le_mul_right _ hlt
    exact Nat.lt_irrefl i (Nat.lt_of_lt_of_le hstop (Nat.le_trans hle hstart))
  obtain ⟨t, hstart, hstop⟩ := hexists
  refine ⟨t, ⟨hstart, hstop⟩, fun t' ht' => ?_⟩
  rcases lt_trichotomy t t' with hlt | heq | hlt
  · exact absurd ht'.1 (hdisjoint t t' hlt hstop)
  · exact heq.symm
  · exact absurd hstart (hdisjoint t' t hlt ht'.2)

namespace V3

lemma mem_program {t : Fin (m + 1)} {u : Update} :
    u ∈ program multForThread n m t ↔
      (start n m t ≤ u.i ∧ u.i < stop n m t) ∧ u.k < n ∧ u.j < n := by
  rw [program_eq]
  exact mem_rows

lemma owned (n m : Nat) : Product.Owned n m multForThread where
  inRange t u hu := by
    obtain ⟨⟨-, hi⟩, hk, hj⟩ := mem_program.1 hu
    exact ⟨Nat.lt_of_lt_of_le hi (stop_le t), hk, hj⟩
  owner i hi j hj := by
    obtain ⟨t, ⟨hstart, hstop⟩, hunique⟩ := existsUnique_thread (m := m) hi
    refine ⟨t, ?_, fun t' ht' => ?_⟩
    · rw [program_eq]
      exact filter_rows hstart hstop hj
    · refine filter_eq_nil_of_row fun u hu heq => ht' (hunique t' ?_)
      rw [← heq]
      exact (mem_program.1 hu).1

/-- Every row is written by exactly one thread. -/
lemma existsUnique_writer (hi : i < n) :
    ∃! t : Fin (m + 1), ∃ u ∈ program multForThread n m t, u.i = i := by
  have hn : 0 < n := Nat.zero_lt_of_lt hi
  obtain ⟨t, hrow, hunique⟩ := existsUnique_thread (m := m) hi
  refine ⟨t, ⟨⟨i, 0, 0⟩, mem_program.2 ⟨hrow, hn, hn⟩, rfl⟩, ?_⟩
  rintro t' ⟨u, hu, rfl⟩
  exact hunique t' (mem_program.1 hu).1

end V3

end

/-- The versions V2 and V3 give the result of V1: in V3 every call ends with it, in every
interleaving of the threads, which write different rows, and in both every element gets its products
in ascending `k`. -/
theorem versions_agree {α : Type} [Zero α] [Add α] [Mul α] (n m : Nat) (a b memory : Nat → α) :
    (V2.multiply ⟨n, a⟩ ⟨n, b⟩ (m + 1) memory = V1.multiply ⟨n, a⟩ ⟨n, b⟩ (m + 1) memory ∧
      ∀ i < n, ∀ j < n, (V2.updates n).filter (Update.isAt i j) = products n i j) ∧
    ∃ p₀, V3.multiply ⟨n, a⟩ ⟨n, b⟩ m memory = .ok p₀ ∧
      Product.Agrees ⟨n, a⟩ ⟨n, b⟩ memory p₀ ∧
      (∀ i < n, ∃! t : Fin (m + 1), ∃ u ∈ program V3.multForThread n m t, u.i = i) ∧
      ∀ s, Reach (Product.step ⟨n, a⟩ ⟨n, b⟩) p₀ s → s.Returned →
        ∀ i < n, ∀ j < n, s.done.filter (Update.isAt i j) = products n i j := by
  refine ⟨⟨?_, (V2.ordered n).inOrder⟩, _, ?_, (V3.owned n m).agrees a b,
    fun i hi => V3.existsUnique_writer hi, fun s hs h => ?_⟩
  · rw [V1.multiply_eq, V2.multiply_eq, (V2.ordered n).foldl_eq (V1.ordered n) rfl]
  · rw [V3.multiply, QMatrix.checkSizes, if_neg (not_not.2 rfl)]
    rfl
  · exact ((V3.owned n m).ordered (Product.Inv.of_reach hs) h).inOrder

end TiPI.MatrixMultiplier
