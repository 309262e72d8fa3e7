import Mathlib.Order.Lattice
import Mathlib.Data.List.Basic

/-!
# Ascending buffers

A buffer of `n` live slots is a function on indices of which only the first `n` values count.
Insertion shifts the slots from one index on by one, a cut keeps the slots on one side of a key.
-/

namespace TiPI

variable {κ β : Type*}

/-- The first `n` values strictly ascend. -/
def Ascending [LT κ] (f : Nat → κ) (n : Nat) : Prop := ∀ i j, i < j → j < n → f i < f j

/-- `p` is the first of the `n` slots that holds `k` or something greater. -/
structure LowerBound [LinearOrder κ] (f : Nat → κ) (n : Nat) (k : κ) (p : Nat) : Prop where
  le : p ≤ n
  below : ∀ i, i < p → f i < k
  above : ∀ i, p ≤ i → i < n → k ≤ f i

/-- `g` is `f` with `x` put in at slot `p`. -/
structure InsertedAt (f g : Nat → β) (n p : Nat) (x : β) : Prop where
  before : ∀ i, i < p → g i = f i
  new : g p = x
  after : ∀ i, p ≤ i → i < n → g (i + 1) = f i

lemma InsertedAt.prod {γ : Type*} {f f' : Nat → β} {g g' : Nat → γ} {n p : Nat} {x : β} {y : γ}
    (h : InsertedAt f f' n p x) (h' : InsertedAt g g' n p y) :
    InsertedAt (fun i => (f i, g i)) (fun i => (f' i, g' i)) n p (x, y) where
  before i hi := by rw [h.before i hi, h'.before i hi]
  new := by rw [h.new, h'.new]
  after i hi hin := by rw [h.after i hi hin, h'.after i hi hin]

lemma InsertedAt.exists_iff {f g : Nat → β} {n p : Nat} {x : β} (h : InsertedAt f g n p x)
    (hp : p ≤ n) (P : β → Prop) :
    (∃ i, i < n + 1 ∧ P (g i)) ↔ P x ∨ ∃ i, i < n ∧ P (f i) := by
  constructor
  · rintro ⟨i, hi, hP⟩
    rcases Nat.lt_trichotomy i p with hip | rfl | hip
    · exact .inr ⟨i, by omega, h.before i hip ▸ hP⟩
    · exact .inl (h.new ▸ hP)
    · obtain ⟨j, rfl⟩ : ∃ j, i = j + 1 := ⟨i - 1, by omega⟩
      exact .inr ⟨j, by omega, h.after j (by omega) (by omega) ▸ hP⟩
  · rintro (hP | ⟨i, hi, hP⟩)
    · exact ⟨p, by omega, h.new.symm ▸ hP⟩
    · rcases Nat.lt_or_ge i p with hip | hip
      · exact ⟨i, by omega, (h.before i hip).symm ▸ hP⟩
      · exact ⟨i + 1, by omega, (h.after i hip hi).symm ▸ hP⟩

lemma InsertedAt.forall_iff {f g : Nat → β} {n p : Nat} {x : β} (h : InsertedAt f g n p x)
    (hp : p ≤ n) (P : β → Prop) :
    (∀ i, i < n + 1 → P (g i)) ↔ P x ∧ ∀ i, i < n → P (f i) := by
  have hex := h.exists_iff hp fun y => ¬P y
  constructor
  · intro hall
    refine ⟨?_, fun i hi => ?_⟩
    · by_contra hx
      obtain ⟨i, hi, hP⟩ := hex.2 (.inl hx)
      exact hP (hall i hi)
    · by_contra hx
      obtain ⟨j, hj, hP⟩ := hex.2 (.inr ⟨i, hi, hx⟩)
      exact hP (hall j hj)
  · rintro ⟨hx, hall⟩ i hi
    by_contra hP
    rcases hex.1 ⟨i, hi, hP⟩ with hx' | ⟨j, hj, hP'⟩
    · exact hx' hx
    · exact hP' (hall j hj)

section Cut

variable [LinearOrder κ] {f g : Nat → κ} {n m p : Nat} {k : κ}

lemma Ascending.le (h : Ascending f n) {i j : Nat} (hij : i ≤ j) (hj : j < n) : f i ≤ f j := by
  rcases Nat.lt_or_eq_of_le hij with hij | rfl
  · exact (h i j hij hj).le
  · exact le_rfl

lemma Ascending.lt_iff (h : Ascending f n) {i j : Nat} (hi : i < n) (hj : j < n) :
    f i < f j ↔ i < j := by
  constructor
  · intro hlt
    by_contra hij
    exact absurd (h.le (Nat.le_of_not_lt hij) hi) (not_le.2 hlt)
  · intro hij
    exact h i j hij hj

lemma Ascending.injective (h : Ascending f n) {i j : Nat} (hi : i < n) (hj : j < n)
    (heq : f i = f j) : i = j := by
  rcases Nat.lt_trichotomy i j with hij | hij | hij
  · exact absurd heq (h i j hij hj).ne
  · exact hij
  · exact absurd heq (h j i hij hi).ne'

/-- The slots in front of slot `m` are those with a smaller key. -/
lemma Ascending.exists_take (h : Ascending f n) (hm : m < n) (P : Nat → Prop) :
    (∃ i, i < m ∧ P i) ↔ ∃ i, i < n ∧ f i < f m ∧ P i := by
  constructor
  · rintro ⟨i, hi, hP⟩
    exact ⟨i, by omega, h i m hi hm, hP⟩
  · rintro ⟨i, hi, hlt, hP⟩
    exact ⟨i, (h.lt_iff hi hm).1 hlt, hP⟩

/-- The slots from slot `m` on are those with a key that is not smaller. -/
lemma Ascending.exists_drop (h : Ascending f n) (hm : m < n) (P : Nat → Prop) :
    (∃ i, i < n - m ∧ P (m + i)) ↔ ∃ i, i < n ∧ f m ≤ f i ∧ P i := by
  constructor
  · rintro ⟨i, hi, hP⟩
    exact ⟨m + i, by omega, h.le (by omega) (by omega), hP⟩
  · rintro ⟨i, hi, hle, hP⟩
    have hmi : m ≤ i := by
      by_contra hlt
      exact absurd (h i m (by omega) hm) (not_lt.2 hle)
    exact ⟨i - m, by omega, by rwa [Nat.add_sub_cancel' hmi]⟩

/-- A key is present exactly if the slot of its lower bound holds it. -/
lemma LowerBound.hit_iff (h : LowerBound f n k p) (hf : Ascending f n) :
    (p < n ∧ f p = k) ↔ ∃ i, i < n ∧ f i = k := by
  constructor
  · rintro ⟨hp, heq⟩
    exact ⟨p, hp, heq⟩
  · rintro ⟨i, hi, rfl⟩
    have hpi : p ≤ i := by
      by_contra hlt
      exact absurd (h.below i (Nat.lt_of_not_le hlt)) (lt_irrefl _)
    have hle := h.above p (Nat.le_refl p) (by omega)
    exact ⟨by omega, le_antisymm (hf.le hpi hi) hle⟩

/-- An absent key put in at its lower bound keeps the buffer ascending. -/
lemma InsertedAt.ascending (h : InsertedAt f g n p k) (hp : LowerBound f n k p)
    (hf : Ascending f n) (hk : ∀ i, i < n → f i ≠ k) : Ascending g (n + 1) := by
  have hle := hp.le
  intro i j hij hj
  rcases Nat.lt_trichotomy j p with hjp | rfl | hjp
  · rw [h.before i (by omega), h.before j hjp]
    exact hf i j hij (by omega)
  · rw [h.before i hij, h.new]
    exact hp.below i hij
  · obtain ⟨j, rfl⟩ : ∃ j', j = j' + 1 := ⟨j - 1, by omega⟩
    rw [h.after j (by omega) (by omega)]
    rcases Nat.lt_trichotomy i p with hip | rfl | hip
    · rw [h.before i hip]
      exact hf i j (by omega) (by omega)
    · rw [h.new]
      exact lt_of_le_of_ne (hp.above j (by omega) (by omega)) (hk j (by omega)).symm
    · obtain ⟨i, rfl⟩ : ∃ i', i = i' + 1 := ⟨i - 1, by omega⟩
      rw [h.after i (by omega) (by omega)]
      exact hf i j (by omega) (by omega)

end Cut

/-! ### Live slots as lists -/

section Slots

lemma drop_range (p m : Nat) : (List.range (p + m)).drop p = (List.range m).map (p + ·) := by
  rw [List.range_add, List.drop_left' List.length_range]

lemma InsertedAt.map_range {f g : Nat → β} {n p : Nat} {x : β} (h : InsertedAt f g n p x)
    (hp : p ≤ n) : (List.range (n + 1)).map g =
      (List.range p).map f ++ x :: ((List.range n).drop p).map f := by
  obtain ⟨m, rfl⟩ := Nat.exists_eq_add_of_le hp
  rw [drop_range, Nat.add_assoc, List.range_add, List.map_append, List.range_succ_eq_map]
  congr 1
  · exact List.map_congr_left fun i hi => h.before i (List.mem_range.1 hi)
  · simp only [List.map_cons, List.map_map, Nat.add_zero, h.new]
    congr 1
    refine List.map_congr_left fun i hi => ?_
    have hlt := List.mem_range.1 hi
    exact h.after (p + i) (Nat.le_add_right p i) (Nat.add_lt_add_left hlt p)

/-- The same with the value at slot `p` replaced. -/
lemma map_range_replace {f g : Nat → β} {n p : Nat} (hp : p < n)
    (hsame : ∀ i, i < n → i ≠ p → g i = f i) : (List.range n).map g =
      (List.range p).map f ++ g p :: ((List.range n).drop (p + 1)).map f := by
  obtain ⟨m, rfl⟩ := Nat.exists_eq_add_of_le (Nat.succ_le_of_lt hp)
  rw [drop_range, Nat.succ_eq_add_one, List.range_add, List.range_succ, List.map_append,
    List.map_append, List.append_assoc]
  congr 1
  · refine List.map_congr_left fun i hi => ?_
    have hlt := List.mem_range.1 hi
    exact hsame i (hlt.trans hp) hlt.ne
  · simp only [List.map_cons, List.map_nil, List.singleton_append, List.map_map]
    congr 1
    refine List.map_congr_left fun i hi => ?_
    have hbehind : p < p + 1 + i := Nat.lt_add_right i (Nat.lt_succ_self p)
    exact hsame (p + 1 + i) (Nat.add_lt_add_left (List.mem_range.1 hi) (p + 1)) hbehind.ne'

variable [LinearOrder κ] {f : Nat → κ} {n p : Nat} {k : κ}

lemma LowerBound.filter_lt (h : LowerBound f n k p) :
    (List.range n).filter (fun i => f i < k) = List.range p := by
  obtain ⟨m, rfl⟩ := Nat.exists_eq_add_of_le h.le
  rw [List.range_add, List.filter_append, List.filter_eq_self.2, List.filter_eq_nil_iff.2,
    List.append_nil]
  · intro i hi
    obtain ⟨j, hj, rfl⟩ := List.mem_map.1 hi
    have hlt := List.mem_range.1 hj
    simpa using h.above (p + j) (Nat.le_add_right p j) (Nat.add_lt_add_left hlt p)
  · intro i hi
    simpa using h.below i (List.mem_range.1 hi)

/-- Without the key itself the greater slots begin at the lower bound. -/
lemma LowerBound.filter_gt_of_miss (h : LowerBound f n k p) (hk : ∀ i, i < n → f i ≠ k) :
    (List.range n).filter (fun i => k < f i) = (List.range n).drop p := by
  obtain ⟨m, rfl⟩ := Nat.exists_eq_add_of_le h.le
  rw [drop_range, List.range_add, List.filter_append, List.filter_eq_nil_iff.2,
    List.filter_eq_self.2, List.nil_append]
  · intro i hi
    obtain ⟨j, hj, rfl⟩ := List.mem_map.1 hi
    have hlt := Nat.add_lt_add_left (List.mem_range.1 hj) p
    have hle := h.above (p + j) (Nat.le_add_right p j) hlt
    simpa using lt_of_le_of_ne hle (hk (p + j) hlt).symm
  · intro i hi
    simpa using (h.below i (List.mem_range.1 hi)).le

/-- Otherwise they begin behind it. -/
lemma LowerBound.filter_gt_of_hit (h : LowerBound f n k p) (hf : Ascending f n) (hp : p < n)
    (hk : f p = k) : (List.range n).filter (fun i => k < f i) = (List.range n).drop (p + 1) := by
  obtain ⟨m, rfl⟩ := Nat.exists_eq_add_of_le (Nat.succ_le_of_lt hp)
  rw [drop_range, List.range_add, List.filter_append, List.filter_eq_nil_iff.2,
    List.filter_eq_self.2, List.nil_append]
  · intro i hi
    obtain ⟨j, hj, rfl⟩ := List.mem_map.1 hi
    have hlt := Nat.add_lt_add_left (List.mem_range.1 hj) (p + 1)
    have hbehind : p < p + 1 + j := Nat.lt_add_right j (Nat.lt_succ_self p)
    simpa [hk] using hf p (p + 1 + j) hbehind hlt
  · intro i hi
    rcases Nat.lt_succ_iff_lt_or_eq.1 (List.mem_range.1 hi) with hlt | rfl
    · simpa using (h.below i hlt).le
    · simp [hk]

end Slots

end TiPI
