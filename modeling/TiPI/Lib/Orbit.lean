import Mathlib.Data.Set.Finite.Basic

/-!
# Orbits of a partial function

The states that a partial function goes through. Among finitely many states an orbit ends if and
only if it does not come back to a state.
-/

namespace TiPI

variable {α : Type*} {f : α → Option α} {a b : α} {m n : ℕ}

/-- The state after `n` steps, if there are so many. -/
def orbit (f : α → Option α) : ℕ → α → Option α
  | 0, a => some a
  | n + 1, a => (f a).bind (orbit f n)

/-- The orbit comes back to a state. -/
def Circles (f : α → Option α) (a : α) : Prop :=
  ∃ m n b, 0 < n ∧ orbit f m a = some b ∧ orbit f n b = some b

lemma orbit_add (m n : ℕ) (a : α) : orbit f (m + n) a = (orbit f m a).bind (orbit f n) := by
  induction m generalizing a with
  | zero => rw [Nat.zero_add, orbit, Option.bind_some]
  | succ m ih =>
    rw [Nat.succ_add, orbit, orbit, Option.bind_assoc]
    exact Option.bind_congr fun b _ => ih b

lemma orbit_succ (n : ℕ) (a : α) : orbit f (n + 1) a = (orbit f n a).bind f := by
  rw [orbit_add]
  refine Option.bind_congr fun b _ => ?_
  rw [orbit]
  exact Option.bind_fun_some (f b)

lemma orbit_none_of_le (h : orbit f m a = none) (hle : m ≤ n) : orbit f n a = none := by
  obtain ⟨k, rfl⟩ := Nat.exists_eq_add_of_le hle
  rw [orbit_add, h, Option.bind_none]

/-- An invariant that steps keep holds along the orbit. -/
lemma orbit_invariant {P : α → Prop} (h : orbit f n a = some b) (ha : P a)
    (hstep : ∀ x y, P x → f x = some y → P y) : P b := by
  induction n generalizing a with
  | zero =>
    cases h
    exact ha
  | succ n ih =>
    obtain ⟨x, hx, hrest⟩ := Option.bind_eq_some_iff.1 h
    exact ih hrest (hstep a x ha hx)

lemma orbit_mul (h : orbit f n b = some b) (k : ℕ) : orbit f (k * n) b = some b := by
  induction k with
  | zero => rw [Nat.zero_mul, orbit]
  | succ k ih => rw [Nat.succ_mul, orbit_add, ih, Option.bind_some, h]

/-- An orbit that comes back goes on for ever. -/
lemma Circles.orbit_ne_none (h : Circles f a) (n : ℕ) : orbit f n a ≠ none := by
  obtain ⟨m, k, b, hk, hm, hback⟩ := h
  intro hnone
  have hlate : n ≤ m + n * k :=
    Nat.le_trans (Nat.le_mul_of_pos_right n hk) (Nat.le_add_left ..)
  have hsome : orbit f (m + n * k) a = some b := by
    rw [orbit_add, hm, Option.bind_some, orbit_mul hback]
  rw [orbit_none_of_le hnone hlate] at hsome
  cases hsome

/-- An orbit that goes on for ever among finitely many states comes back. -/
lemma circles_of_finite {s : Set α} (hs : s.Finite)
    (hmem : ∀ n x, orbit f n a = some x → (f x).isSome → x ∈ s)
    (h : ∀ n, orbit f n a ≠ none) : Circles f a := by
  choose x hx using fun n => Option.ne_none_iff_exists'.1 (h n)
  have hin : ∀ n, x n ∈ s := by
    intro n
    refine hmem n (x n) (hx n) ?_
    have hnext := hx (n + 1)
    rw [orbit_succ, hx n, Option.bind_some] at hnext
    rw [hnext]
    rfl
  by_contra hno
  have hne : ∀ i j, i < j → x i ≠ x j := by
    intro i j hij heq
    refine hno ⟨i, j - i, x i, Nat.sub_pos_of_lt hij, hx i, ?_⟩
    have hj := hx j
    rw [← Nat.add_sub_cancel' (Nat.le_of_lt hij), orbit_add, hx i, Option.bind_some] at hj
    rw [hj, Nat.add_sub_cancel' (Nat.le_of_lt hij), heq]
  have hinj : Function.Injective x := by
    intro i j heq
    rcases Nat.lt_trichotomy i j with hlt | rfl | hlt
    · exact absurd heq (hne i j hlt)
    · rfl
    · exact absurd heq.symm (hne j i hlt)
  exact Set.infinite_of_injective_forall_mem hinj hin hs

/-- Among finitely many states an orbit ends if and only if it does not come back. -/
theorem ends_iff_not_circles {s : Set α} (hs : s.Finite)
    (hmem : ∀ n x, orbit f n a = some x → (f x).isSome → x ∈ s) :
    (∃ n, orbit f n a = none) ↔ ¬ Circles f a := by
  constructor
  · rintro ⟨n, hn⟩ hcircles
    exact hcircles.orbit_ne_none n hn
  · intro hno
    by_contra hnever
    exact hno (circles_of_finite hs hmem fun n hn => hnever ⟨n, hn⟩)

end TiPI
