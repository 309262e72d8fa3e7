import Mathlib.Data.Int.Log
import Mathlib.Data.Rat.Floor
import Mathlib.Tactic.Linarith

/-!
# Binary floating point

The numbers of IEEE 754 with 64 bits as rational numbers, and the rounding to the nearest of them,
which is monotone.
-/

namespace TiPI

/-- The nearest integer, the even one of two. -/
def halfEven (x : ℚ) : ℤ :=
  if x - ⌊x⌋ < 1 / 2 then ⌊x⌋
  else if 1 / 2 < x - ⌊x⌋ then ⌊x⌋ + 1
  else ⌊x⌋ + ⌊x⌋ % 2

lemma halfEven_intCast (n : ℤ) : halfEven n = n := by
  simp [halfEven]

lemma halfEven_mono {x y : ℚ} (h : x ≤ y) : halfEven x ≤ halfEven y := by
  have hfloor := Int.floor_mono h
  unfold halfEven
  rcases hfloor.lt_or_eq with hlt | heq
  · split_ifs <;> omega
  · rw [heq]
    split_ifs with hx hy hy' hx' hy hy' hy hy'
    · rfl
    · omega
    · omega
    · linarith
    · rfl
    · linarith
    · linarith
    · omega
    · rfl

lemma le_halfEven {n : ℤ} {x : ℚ} (h : n ≤ x) : n ≤ halfEven x :=
  (halfEven_intCast n).ge.trans (halfEven_mono h)

lemma halfEven_le {n : ℤ} {x : ℚ} (h : x ≤ n) : halfEven x ≤ n :=
  (halfEven_mono h).trans (halfEven_intCast n).le

/-- The exponent of the last place of a positive number: 53 digits, and none behind `2 ^ -1074`. -/
def lastPlace (x : ℚ) : ℤ := max (Int.log 2 x - 52) (-1074)

/-- A number that is not negative, rounded to its last place. -/
def nearestPos (x : ℚ) : ℚ := halfEven (x / 2 ^ lastPlace x) * 2 ^ lastPlace x

def nearest (x : ℚ) : ℚ := if 0 ≤ x then nearestPos x else -nearestPos (-x)

/-- The nearest floating-point number; `none` is an infinite one. -/
def binary64 (x : ℚ) : Option ℚ := if |nearest x| < 2 ^ 1024 then some (nearest x) else none

lemma two_zpow_pos (m : ℤ) : (0 : ℚ) < 2 ^ m := zpow_pos (by norm_num) m

lemma nearestPos_nonneg {x : ℚ} (h : 0 ≤ x) : 0 ≤ nearestPos x := by
  have hpow := two_zpow_pos (lastPlace x)
  have hdigits : (0 : ℤ) ≤ halfEven (x / 2 ^ lastPlace x) := by
    apply le_halfEven
    rw [Int.cast_zero]
    exact div_nonneg h hpow.le
  exact mul_nonneg (by exact_mod_cast hdigits) hpow.le

lemma nearestPos_zero : nearestPos 0 = 0 := by
  have hzero : halfEven 0 = 0 := halfEven_intCast 0
  rw [nearestPos, zero_div, hzero, Int.cast_zero, zero_mul]

/-- A power of two not below the last place is a whole number of it. -/
lemma exists_places {e m : ℤ} (hm : e ≤ m) : ∃ n : ℤ, (2 : ℚ) ^ m = n * 2 ^ e := by
  obtain ⟨k, hk⟩ := Int.le.dest hm
  refine ⟨2 ^ k, ?_⟩
  rw [← hk, zpow_add₀ (by norm_num), zpow_natCast, mul_comm]
  norm_cast

lemma pow_le_nearestPos {x : ℚ} {m : ℤ} (hm : lastPlace x ≤ m) (h : 2 ^ m ≤ x) :
    2 ^ m ≤ nearestPos x := by
  obtain ⟨n, hn⟩ := exists_places hm
  have hpos := two_zpow_pos (lastPlace x)
  have hle : n ≤ halfEven (x / 2 ^ lastPlace x) := by
    apply le_halfEven
    rwa [le_div_iff₀ hpos, ← hn]
  rw [hn, nearestPos]
  exact mul_le_mul_of_nonneg_right (by exact_mod_cast hle) hpos.le

lemma nearestPos_le_pow {x : ℚ} {m : ℤ} (hm : lastPlace x ≤ m) (h : x ≤ 2 ^ m) :
    nearestPos x ≤ 2 ^ m := by
  obtain ⟨n, hn⟩ := exists_places hm
  have hpos := two_zpow_pos (lastPlace x)
  have hle : halfEven (x / 2 ^ lastPlace x) ≤ n := by
    apply halfEven_le
    rwa [div_le_iff₀ hpos, ← hn]
  rw [hn, nearestPos]
  exact mul_le_mul_of_nonneg_right (by exact_mod_cast hle) hpos.le

/-- Between numbers of the same last place it is the rounding to integers; otherwise there is a
power of two between them. -/
lemma nearestPos_mono {x y : ℚ} (h0 : 0 ≤ x) (h : x ≤ y) : nearestPos x ≤ nearestPos y := by
  rcases h0.eq_or_lt with rfl | hx
  · rw [nearestPos_zero]
    exact nearestPos_nonneg h
  have hlog : Int.log 2 x ≤ Int.log 2 y := Int.log_mono_right hx h
  by_cases heq : lastPlace x = lastPlace y
  · have hpos := two_zpow_pos (lastPlace y)
    have hle := halfEven_mono (div_le_div_of_nonneg_right h hpos.le)
    rw [nearestPos, nearestPos, heq]
    exact mul_le_mul_of_nonneg_right (by exact_mod_cast hle) hpos.le
  · have hplaces : lastPlace y = Int.log 2 y - 52 ∧ lastPlace x < lastPlace y ∧
        Int.log 2 x + 1 ≤ Int.log 2 y := by
      unfold lastPlace at heq ⊢
      omega
    have hbelow : x ≤ 2 ^ Int.log 2 y := by
      have hlt : x < 2 ^ (Int.log 2 x + 1) := Int.lt_zpow_succ_log_self (by norm_num) x
      exact hlt.le.trans (zpow_le_zpow_right₀ (by norm_num) hplaces.2.2)
    have habove : 2 ^ Int.log 2 y ≤ y := Int.zpow_log_le_self (by norm_num) (hx.trans_le h)
    exact (nearestPos_le_pow (by omega) hbelow).trans (pow_le_nearestPos (by omega) habove)

lemma nearest_mono {x y : ℚ} (h : x ≤ y) : nearest x ≤ nearest y := by
  unfold nearest
  split_ifs with hx hy hy
  · exact nearestPos_mono hx h
  · linarith
  · have hx' := nearestPos_nonneg (neg_nonneg.2 (not_le.1 hx).le)
    have hy' := nearestPos_nonneg hy
    linarith
  · exact neg_le_neg (nearestPos_mono (neg_nonneg.2 (not_le.1 hy).le) (neg_le_neg h))

lemma binary64_eq_some {x y : ℚ} (h : binary64 x = some y) :
    y = nearest x ∧ |nearest x| < 2 ^ 1024 := by
  rw [binary64] at h
  split at h
  · next hlt => exact ⟨(Option.some.inj h).symm, hlt⟩
  · cases h

/-! ### Partial functions -/

/-- Defined between any two places where it is defined, and monotone there. -/
def PartialMono (f : ℚ → Option ℚ) : Prop :=
  ∀ ⦃x y z x' z'⦄, x ≤ y → y ≤ z → f x = some x' → f z = some z' →
    ∃ y', f y = some y' ∧ x' ≤ y' ∧ y' ≤ z'

/-- What lies between two numbers that are finite is finite. -/
lemma partialMono_binary64 : PartialMono binary64 := by
  intro x y z x' z' hxy hyz hx hz
  obtain ⟨rfl, hx'⟩ := binary64_eq_some hx
  obtain ⟨rfl, hz'⟩ := binary64_eq_some hz
  have hxy' := nearest_mono hxy
  have hyz' := nearest_mono hyz
  have hlt : |nearest y| < 2 ^ 1024 := by
    rw [abs_lt] at hx' hz' ⊢
    exact ⟨hx'.1.trans_le hxy', hyz'.trans_lt hz'.2⟩
  exact ⟨nearest y, if_pos hlt, hxy', hyz'⟩

variable {f g : ℚ → Option ℚ}

lemma PartialMono.bind (hf : PartialMono f) (hg : PartialMono g) :
    PartialMono fun x => (f x).bind g := by
  intro x y z x' z' hxy hyz hx hz
  obtain ⟨x₁, hx₁, hx'⟩ := Option.bind_eq_some_iff.1 hx
  obtain ⟨z₁, hz₁, hz'⟩ := Option.bind_eq_some_iff.1 hz
  obtain ⟨y₁, hy₁, hxy₁, hyz₁⟩ := hf hxy hyz hx₁ hz₁
  obtain ⟨y', hy', hbounds⟩ := hg hxy₁ hyz₁ hx' hz'
  exact ⟨y', Option.bind_eq_some_iff.2 ⟨y₁, hy₁, hy'⟩, hbounds⟩

lemma PartialMono.comp {h : ℚ → ℚ} (hf : PartialMono f) (hh : Monotone h) :
    PartialMono fun x => f (h x) :=
  fun _ _ _ _ _ hxy hyz hx hz => hf (hh hxy) (hh hyz) hx hz

end TiPI
