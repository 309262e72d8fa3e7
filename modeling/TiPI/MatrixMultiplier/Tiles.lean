import Mathlib.Algebra.Order.BigOperators.Group.Finset
import TiPI.MatrixMultiplier.Threads

/-!
# The tiled product

The loops of V4 over rows and columns run to the tile size, whatever the tile and the size of the
matrix are.
-/

namespace TiPI.MatrixMultiplier

section

variable {n m lo hi step : Nat} {body : Nat → List Update} {u : Update}

/-- A loop whose rounds do not look at their variable. -/
lemma mem_forLoop_const {l : List Update} (hstep : 0 < step) :
    (u ∈ forLoop lo hi step fun _ => l) ↔ lo < hi ∧ u ∈ l := by
  have hrounds : (hi - lo + (step - 1)) / step = 0 ↔ hi ≤ lo := by
    rw [Nat.div_eq_zero_iff_lt hstep]
    omega
  simp only [forLoop, List.mem_flatMap, List.mem_range']
  constructor
  · rintro ⟨-, ⟨q, hq, -⟩, hu⟩
    refine ⟨Nat.lt_of_not_le fun hle => ?_, hu⟩
    rw [hrounds.2 hle] at hq
    exact Nat.not_lt_zero q hq
  · rintro ⟨hlt, hu⟩
    exact ⟨_, ⟨0, Nat.pos_of_ne_zero fun h0 => Nat.not_le.2 hlt (hrounds.1 h0), rfl⟩, hu⟩

lemma start_last_lt (hn : 0 < n) : start n m (Fin.last m) < n := by
  have hle : (m + 1) * (n / (m + 1)) ≤ n := Nat.mul_div_le n (m + 1)
  have hdist : start n m (Fin.last m) = m * (n / (m + 1)) := rfl
  rw [hdist]
  generalize n / (m + 1) = dist at hle
  rw [Nat.succ_mul] at hle
  by_cases hzero : dist = 0
  · rwa [hzero, Nat.mul_zero]
  · exact Nat.lt_of_lt_of_le (Nat.lt_add_of_pos_right (Nat.pos_of_ne_zero hzero)) hle

lemma stop_last : stop n m (Fin.last m) = n := if_neg (Nat.lt_irrefl m)

/-! ### What V4 does -/

namespace V4

lemma mem_program {t : Fin (m + 1)} :
    u ∈ program multForThread n m t ↔
      start n m t < stop n m t ∧ 0 < n ∧ (start n m t ≤ u.i ∧ u.i < 32) ∧ u.k < n ∧ u.j < 32 := by
  rw [program_eq, multForThread, mem_forLoop_const (by decide), mem_forLoop_const (by decide)]
  simp only [mem_forLoop, List.mem_singleton, tile]
  constructor
  · rintro ⟨hrows, hn, i, hlo, hi, k, -, hk, j, -, hj, rfl⟩
    exact ⟨hrows, hn, ⟨hlo, hi⟩, hk, hj⟩
  · rintro ⟨hrows, hn, ⟨hlo, hi⟩, hk, hj⟩
    exact ⟨hrows, hn, u.i, hlo, hi, u.k, Nat.zero_le _, hk, u.j, Nat.zero_le _, hj, rfl⟩

/-- A thread with rows does the last row of the tile. -/
lemma tile_mem_program {t : Fin (m + 1)} (hn : 0 < n) (hrows : start n m t < stop n m t)
    (hlt : start n m t < 32) : (⟨31, 0, 0⟩ : Update) ∈ program multForThread n m t :=
  mem_program.2 ⟨hrows, hn, ⟨Nat.le_of_lt_succ hlt, by decide⟩, hn, by decide⟩

/-- For a matrix that is one tile, the loops are those of V3. -/
lemma multForThread_tile : multForThread 32 0 32 = rows 32 0 32 := by
  have hround : ∀ l, (forLoop 0 32 32 fun _ => l) = l := by
    intro l
    simp [forLoop]
  rw [multForThread, tile, hround, hround, rows]

/-- One thread does the tile where there is no other, or the others get no rows. -/
lemma owned (h : n = 0 ∨ n = 32 ∧ (m = 0 ∨ 32 ≤ m)) : Product.Owned n m multForThread := by
  rcases h with rfl | ⟨rfl, hm⟩
  · refine ⟨fun t u hu => ?_, fun i hi => absurd hi (Nat.not_lt_zero i)⟩
    exact absurd (mem_program.1 hu).2.1 (Nat.lt_irrefl 0)
  have hother : ∀ t ≠ Fin.last m, program multForThread 32 m t = [] := by
    intro t ht
    have hlt : t.val < m :=
      Nat.lt_of_le_of_ne (Nat.le_of_lt_succ t.isLt) fun heq => ht (Fin.ext heq)
    have hdist : 32 / (m + 1) = 0 := Nat.div_eq_of_lt (by omega)
    refine List.eq_nil_iff_forall_not_mem.2 fun u hu => ?_
    have hrows := (mem_program.1 hu).1
    rw [stop, if_pos hlt, hdist] at hrows
    exact Nat.not_lt_zero _ hrows
  have hlast : program multForThread 32 m (Fin.last m) = rows 32 0 32 := by
    have hstart : start 32 m (Fin.last m) = 0 := by
      rcases hm with rfl | hm
      · rfl
      · rw [start, Nat.div_eq_of_lt (by omega), Nat.mul_zero]
    rw [program_eq, hstart, stop_last, multForThread_tile]
  constructor
  · intro t u hu
    by_cases ht : t = Fin.last m
    · rw [ht, hlast] at hu
      obtain ⟨⟨-, hi⟩, hk, hj⟩ := mem_rows.1 hu
      exact ⟨hi, hk, hj⟩
    · rw [hother t ht] at hu
      exact absurd hu List.not_mem_nil
  · intro i hi j hj
    refine ⟨Fin.last m, ?_, fun t ht => ?_⟩
    · rw [hlast]
      exact filter_rows (Nat.zero_le i) hi hj
    · rw [hother t ht, List.filter_nil]

end V4

end

/-! ### When it is right -/

variable {α : Type} [Zero α] [Add α] [Mul α]

namespace Product

variable {n m : Nat} {f : MultForThread} {memory : Nat → α} {u : Update}

/-- A threaded product is right: it does what the plain one does, stays below the size, and gives
every element every product once. -/
structure Right (A B : QMatrix α) (memory : Nat → α) (p₀ : Product α m) : Prop
    extends Agrees A B memory p₀ where
  inRange : ∀ s, Reach (step A B) p₀ s →
    ∀ u ∈ s.done, u.i < A.size ∧ u.k < A.size ∧ u.j < A.size
  once : ∀ s, Reach (step A B) p₀ s → s.Returned →
    ∀ i < A.size, ∀ k < A.size, ∀ j < A.size, s.done.count ⟨i, k, j⟩ = 1

lemma Owned.right (hf : Owned n m f) (a b : Nat → α) :
    Right ⟨n, a⟩ ⟨n, b⟩ memory (init f n m memory) where
  toAgrees := hf.agrees a b
  inRange s hs u hu := by
    obtain ⟨t, ht⟩ := (Inv.of_reach hs).interleaved.mem_prog.2 u hu
    exact hf.inRange t u ht
  once s hs h i hi k hk j hj := by
    have hordered := hf.ordered (Inv.of_reach hs) h
    have hnodup : (products n i j).Nodup := by
      refine List.nodup_range.map fun k k' heq => ?_
      exact (Update.mk.inj heq).2.1
    rw [← List.count_filter (isAt_self i k j), hordered.inOrder i hi j hj]
    exact List.count_eq_one_of_mem hnodup (List.mem_map.2 ⟨k, List.mem_range.2 hk, rfl⟩)

/-- A call that returned has executed every update as often as the programs have it. -/
lemma count_done {A B : QMatrix α} {s : Product α m} (hs : Inv A B f n memory s) (h : s.Returned) :
    s.done.count u = ∑ t, (program f n m t).count u := by
  have hcount := hs.interleaved.count_eq u
  simp only [hs.rest_nil h, List.count_nil, Finset.sum_const_zero, Nat.add_zero] at hcount
  exact hcount

/-- In a right product, every update of the matrix is in the program of one thread. -/
lemma Right.sum_count {a b : Nat → α} (hright : Right ⟨n, a⟩ ⟨n, b⟩ memory (init f n m memory))
    {i k j : Nat} (hi : i < n) (hk : k < n) (hj : j < n) :
    ∑ t, (program f n m t).count ⟨i, k, j⟩ = 1 := by
  obtain ⟨s, hs, hreturned⟩ := @exists_returned α _ _ ⟨n, a⟩ ⟨n, b⟩ m n f memory _
  rw [← count_done (Inv.of_reach hs) hreturned]
  exact hright.once s hs hreturned i hi k hk j hj

/-- In a right product, the programs stay below the size. -/
lemma Right.lt_size {a b : Nat → α} (hright : Right ⟨n, a⟩ ⟨n, b⟩ memory (init f n m memory))
    {t : Fin (m + 1)} (hu : u ∈ program f n m t) : u.i < n ∧ u.k < n ∧ u.j < n := by
  obtain ⟨s, hs, hreturned⟩ := @exists_returned α _ _ ⟨n, a⟩ ⟨n, b⟩ m n f memory _
  refine hright.inRange s hs u (List.count_pos_iff.1 ?_)
  rw [count_done (Inv.of_reach hs) hreturned]
  have hle : (program f n m t).count u ≤ ∑ t, (program f n m t).count u :=
    Finset.single_le_sum (f := fun t => (program f n m t).count u) (fun _ _ => Nat.zero_le _)
      (Finset.mem_univ t)
  exact Nat.lt_of_lt_of_le (List.count_pos_iff.2 hu) hle

end Product

/-! ### Where the tiled product is right -/

namespace V4

variable {n m : Nat} {a b memory : Nat → α}

omit [Add α] [Mul α] in
lemma multiply_eq :
    multiply ⟨n, a⟩ ⟨n, b⟩ m memory = .ok (Product.init multForThread n m memory) := by
  rw [multiply, QMatrix.checkSizes, if_neg (not_not.2 rfl)]
  rfl

/-- Only one tile, done by one thread, comes out right. -/
lemma size_of_right
    (hright : Product.Right ⟨n, a⟩ ⟨n, b⟩ memory (Product.init multForThread n m memory)) :
    n = 0 ∨ n = 32 ∧ (m = 0 ∨ 32 ≤ m) := by
  by_contra hno
  obtain ⟨hn, hone⟩ := not_or.1 hno
  have hpos : 0 < n := Nat.pos_of_ne_zero hn
  have hlast : start n m (Fin.last m) < stop n m (Fin.last m) := by
    rw [stop_last]
    exact start_last_lt hpos
  rcases Nat.lt_trichotomy n 32 with hless | rfl | hmore
  · -- the last row of the tile is behind the matrix
    have hmem := tile_mem_program hpos hlast (Nat.lt_trans (start_last_lt hpos) hless)
    have hlt : 31 < n := (hright.lt_size hmem).1
    exact absurd hless (Nat.not_lt.2 hlt)
  · -- the first thread and the last one both do the last row
    have hm : 0 < m ∧ m < 32 := by omega
    have hdist : 0 < 32 / (m + 1) := Nat.div_pos hm.2 (Nat.succ_pos m)
    have hstart : start 32 m 0 = 0 := Nat.zero_mul _
    have hstop : stop 32 m 0 = 32 / (m + 1) := (if_pos hm.1).trans (Nat.one_mul _)
    have hmemFirst := tile_mem_program hpos (by rwa [hstart, hstop]) (by rwa [hstart])
    have hmemLast := tile_mem_program hpos hlast (start_last_lt hpos)
    have hne : (0 : Fin (m + 1)) ≠ Fin.last m := fun heq => Nat.ne_of_lt hm.1 (congrArg Fin.val heq)
    have htwo := Finset.add_le_sum
      (fun t _ => Nat.zero_le ((program multForThread 32 m t).count ⟨31, 0, 0⟩))
      (Finset.mem_univ 0) (Finset.mem_univ (Fin.last m)) hne
    rw [hright.sum_count (by decide) hpos hpos] at htwo
    have hcountFirst := List.count_pos_iff.2 hmemFirst
    have hcountLast := List.count_pos_iff.2 hmemLast
    omega
  · -- no thread does the row behind the tile
    have hsum := hright.sum_count hmore hpos hpos
    rw [Finset.sum_eq_zero] at hsum
    · cases hsum
    · intro t _
      refine List.count_eq_zero.2 fun hu => ?_
      exact absurd (mem_program.1 hu).2.2.1.2 (Nat.lt_irrefl 32)

end V4

/-- The tiled product is right exactly for the empty matrix, and for one tile when one thread gets
all of it. -/
theorem V4.right_iff (n m : Nat) (a b memory : Nat → α) :
    (∃ p₀, V4.multiply ⟨n, a⟩ ⟨n, b⟩ m memory = .ok p₀ ∧
      Product.Right ⟨n, a⟩ ⟨n, b⟩ memory p₀) ↔
    n = 0 ∨ n = 32 ∧ (m = 0 ∨ 32 ≤ m) := by
  constructor
  · rintro ⟨p₀, hp₀, hright⟩
    rw [V4.multiply_eq] at hp₀
    cases hp₀
    exact V4.size_of_right hright
  · intro h
    exact ⟨_, V4.multiply_eq, (V4.owned h).right a b⟩

/-- A matrix of one element, multiplied by one thread, is read and written behind its end. -/
theorem V4.not_right_one : ¬ ∃ p₀ : Product Int 0,
    V4.multiply ⟨1, fun _ => 1⟩ ⟨1, fun _ => 1⟩ 0 (fun _ => 0) = .ok p₀ ∧
      Product.Right ⟨1, fun _ => 1⟩ ⟨1, fun _ => 1⟩ (fun _ => 0) p₀ := by
  rintro ⟨p₀, hp₀, hright⟩
  rw [V4.multiply_eq] at hp₀
  cases hp₀
  have hsize := V4.size_of_right hright
  omega

end TiPI.MatrixMultiplier
