import TiPI.Auditor.Generator

/-!
# What the random functions yield

The values of `randint`, `choice` and `sample`, and the numbers between two bounds. `random.uniform`
is monotone in the draw, so that its first and its last value tell where all of them lie.
-/

namespace TiPI.Auditor

variable {keys : Keywords}

/-! ### `random` -/

lemma always_randint {lo hi : ℤ} {P : ℤ → Prop} (h : lo ≤ hi) :
    (randint lo hi).Always P ↔ ∀ n, lo ≤ n → n ≤ hi → P n := by
  simp only [randint, if_pos h, Choice.always_bind, Choice.always_upTo, Choice.always_ret]
  constructor
  · intro hP n hlo hhi
    have hn := hP (n - lo).toNat (by omega)
    rwa [show lo + ((n - lo).toNat : ℤ) = n by omega] at hn
  · intro hP i hi
    exact hP _ (by omega) (by omega)

lemma always_choice {α : Type} {l : List α} {P : α → Prop} (h : l ≠ []) :
    (choice l).Always P ↔ ∀ a ∈ l, P a := by
  have hpos : 0 < l.length := List.length_pos_iff.2 h
  simp only [choice, Choice.always_bind, Choice.always_upTo]
  constructor
  · intro hP a ha
    obtain ⟨i, hi, rfl⟩ := List.mem_iff_getElem.1 ha
    simpa [hi] using hP i (by omega)
  · intro hP i hi
    have hlt : i < l.length := by omega
    simpa [hlt] using hP _ (List.getElem_mem hlt)

lemma always_sample_subset {α : Type} {l : List α} {n : Nat} (h : n ≤ l.length) :
    (sample l n).Always (· ⊆ l) := by
  induction n generalizing l with
  | zero => simp [sample]
  | succ n ih =>
    simp only [sample, Choice.always_bind, Choice.always_upTo]
    intro i hi
    have hlt : i < l.length := by omega
    simp only [List.getElem?_eq_getElem hlt, Option.elim_some, Choice.always_bind,
      Choice.always_ret]
    apply (ih (l := l.eraseIdx i) (by rw [List.length_eraseIdx_of_lt hlt]; omega)).imp
    intro as has
    exact List.cons_subset.2 ⟨List.getElem_mem hlt, List.Subset.trans has List.eraseIdx_subset⟩

lemma always_sample_one {α : Type} {l : List α} {P : List α → Prop} (h : l ≠ []) :
    (sample l 1).Always P ↔ ∀ a ∈ l, P [a] := by
  rw [← always_choice h]
  simp only [sample, choice, Choice.always_bind, Choice.always_upTo]
  refine forall_congr' fun i => imp_congr_right fun _ => ?_
  cases l[i]? <;> simp

/-! ### Numbers -/

/-- The number is within the bounds that are given. -/
def Keywords.InBounds (keys : Keywords) (x : ℚ) : Prop :=
  (∀ m ∈ keys.minimum, m.val ≤ x) ∧ ∀ m ∈ keys.maximum, x ≤ m.val

lemma Keywords.InBounds.of_between {x y z : ℚ} (hx : keys.InBounds x) (hz : keys.InBounds z)
    (hxy : x ≤ y) (hyz : y ≤ z) : keys.InBounds y :=
  ⟨fun m hm => (hx.1 m hm).trans hxy, fun m hm => hyz.trans (hz.2 m hm)⟩

/-- What `random.uniform` makes of one draw, rounded. -/
def drawn (a b : Num) (u : ℚ) : Option ℚ := (uniform a b u).bind round2

lemma Num.toInt_mono {a b : Num} (h : a.val ≤ b.val) : a.toInt ≤ b.toInt := by
  cases a with
  | int n =>
    cases b with
    | int m => exact Int.cast_le.1 h
    | float y =>
      simp only [Num.val, Num.toInt] at h ⊢
      split
      · exact Int.le_floor.2 h
      · exact Int.cast_le.1 (h.trans (Int.le_ceil y))
  | float x =>
    cases b with
    | int m =>
      simp only [Num.val, Num.toInt] at h ⊢
      split
      · exact Int.cast_le.1 ((Int.floor_le x).trans h)
      · exact Int.ceil_le.2 h
    | float y =>
      simp only [Num.val, Num.toInt] at h ⊢
      split_ifs with hx hy hy
      · exact Int.floor_mono h
      · exact absurd (hx.trans h) hy
      · exact (Int.ceil_le.2 (by exact_mod_cast (not_le.1 hx).le)).trans (Int.floor_nonneg.2 hy)
      · exact Int.ceil_mono h

lemma partialMono_round2 : PartialMono round2 := by
  apply partialMono_binary64.comp
  intro x y h
  have hle : halfEven (x * 100) ≤ halfEven (y * 100) := halfEven_mono (by linarith)
  exact div_le_div_of_nonneg_right (by exact_mod_cast hle) (by norm_num)

/-- The part of a draw behind the product. -/
lemma partialMono_drawn (a : ℚ) :
    PartialMono fun x => (binary64 x).bind fun product => (binary64 (a + product)).bind round2 := by
  apply partialMono_binary64.bind
  apply PartialMono.bind _ partialMono_round2
  exact partialMono_binary64.comp fun x y h => add_le_add_right h a

/-- A draw between two others. The sign of the difference says which of them is less. -/
lemma drawn_between {a b : Num} {u v w x z : ℚ} (huv : u ≤ v) (hvw : v ≤ w)
    (hx : drawn a b u = some x) (hz : drawn a b w = some z) :
    ∃ y, drawn a b v = some y ∧ (x ≤ y ∧ y ≤ z ∨ z ≤ y ∧ y ≤ x) := by
  cases hd : difference b a with
  | none => simp [drawn, uniform, hd] at hx
  | some d =>
    cases ha : a.toFloat with
    | none => simp [drawn, uniform, hd, ha] at hx
    | some a' =>
      have hdrawn : ∀ t, drawn a b t =
          (binary64 (d * t)).bind fun product => (binary64 (a' + product)).bind round2 := by
        intro t
        simp [drawn, uniform, hd, ha, Option.bind_assoc]
      rw [hdrawn] at hx hz
      simp only [hdrawn]
      rcases le_total 0 d with hpos | hneg
      · obtain ⟨y, hy, hbounds⟩ := partialMono_drawn a' (mul_le_mul_of_nonneg_left huv hpos)
          (mul_le_mul_of_nonneg_left hvw hpos) hx hz
        exact ⟨y, hy, .inl hbounds⟩
      · obtain ⟨y, hy, hbounds⟩ := partialMono_drawn a' (mul_le_mul_of_nonpos_left hvw hneg)
          (mul_le_mul_of_nonpos_left huv hneg) hz hx
        exact ⟨y, hy, .inr hbounds⟩

/-- The last of the numbers that `random` yields. -/
def lastDraw : ℚ := (2 ^ 53 - 1) / 2 ^ 53

/-- Both ends of the range of `randint` are within the bounds. -/
def Keywords.IntegersFit (keys : Keywords) : Prop :=
  keys.InBounds keys.minimum'.toInt ∧ keys.InBounds keys.maximum'.toInt

/-- The first and the last draw are numbers within the bounds. -/
def Keywords.NumbersFit (keys : Keywords) : Prop :=
  ∀ u ∈ [0, lastDraw], ∃ x ∈ drawn keys.minimum' keys.maximum' u, keys.InBounds x

lemma always_integerGenerator {P : Json → Prop} (hle : keys.minimum'.val ≤ keys.maximum'.val)
    (hP : ∀ n : ℤ, P (.num (.int n)) ↔ keys.InBounds n) :
    (integerGenerator keys.minimum' keys.maximum').Always P ↔ keys.IntegersFit := by
  have hints := Num.toInt_mono hle
  simp only [integerGenerator, Choice.always_bind, Choice.always_ret, always_randint hints, hP]
  constructor
  · intro h
    exact ⟨h _ le_rfl hints, h _ hints le_rfl⟩
  · rintro ⟨hlo, hhi⟩ n hn hn'
    exact hlo.of_between hhi (Int.cast_le.2 hn) (Int.cast_le.2 hn')

lemma always_numberGenerator {P : Json → Prop} (hP : ∀ x, P (.num (.float x)) ↔ keys.InBounds x) :
    (numberGenerator keys.minimum' keys.maximum').Always P ↔ keys.NumbersFit := by
  have hdraw : ∀ u, (((uniform keys.minimum' keys.maximum' u).bind round2).elim .fail
      fun x => .ret (.num (.float x)) : GeneratorFunction).Always P ↔
      ∃ x ∈ drawn keys.minimum' keys.maximum' u, keys.InBounds x := by
    intro u
    rw [← drawn]
    cases drawn keys.minimum' keys.maximum' u <;> simp [hP]
  simp only [numberGenerator, random, Choice.always_bind, Choice.always_upTo,
    Choice.always_ret, hdraw]
  constructor
  · intro h u hu
    simp only [List.mem_cons, List.not_mem_nil, or_false] at hu
    rcases hu with rfl | rfl
    · simpa using h 0 (Nat.zero_le _)
    · have hlast := h (2 ^ 53 - 1) le_rfl
      rwa [show (((2 ^ 53 - 1 : ℕ) : ℚ) / 2 ^ 53) = lastDraw by norm_num [lastDraw]] at hlast
  · intro h i hi
    obtain ⟨x, hx, hxb⟩ := h 0 (by simp)
    obtain ⟨z, hz, hzb⟩ := h lastDraw (by simp)
    have hle : (i : ℚ) / 2 ^ 53 ≤ lastDraw := by
      apply div_le_div_of_nonneg_right _ (by norm_num)
      have hcast : (i : ℚ) ≤ ((2 ^ 53 - 1 : ℕ) : ℚ) := Nat.cast_le.2 hi
      exact hcast.trans (by norm_num)
    obtain ⟨y, hy, hbetween | hbetween⟩ := drawn_between (by positivity) hle hx hz
    · exact ⟨y, hy, hxb.of_between hzb hbetween.1 hbetween.2⟩
    · exact ⟨y, hy, hzb.of_between hxb hbetween.1 hbetween.2⟩

end TiPI.Auditor
