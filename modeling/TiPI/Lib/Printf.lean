import Mathlib.Algebra.Order.Ring.Int
import Mathlib.Data.Char
import Mathlib.Data.List.Lex

/-!
# Columns of text

Texts are lists of bytes, compared as strings are. Numbers that are set to the right of a column
wide enough for them are in the order of their texts.
-/

namespace TiPI

/-- `%<width>s`. -/
def padLeft (width : Nat) (text : List Char) : List Char :=
  List.replicate (width - text.length) ' ' ++ text

/-- `%-<width>s`. -/
def padRight (width : Nat) (text : List Char) : List Char :=
  text ++ List.replicate (width - text.length) ' '

def decimal (n : Nat) : List Char := Nat.toDigits 10 n

/-- `%d`. -/
def intText : ℤ → List Char
  | .ofNat n => decimal n
  | .negSucc n => '-' :: decimal (n + 1)

variable {u v a b : List Char} {m n : Nat}

lemma lt_append_of_length_eq (hlen : u.length = v.length) (h : u < v) : u ++ a < v ++ b := by
  induction u generalizing v with
  | nil =>
    obtain rfl : v = [] := List.length_eq_zero_iff.1 hlen.symm
    exact absurd h (lt_irrefl _)
  | cons c u ih =>
    cases v with
    | nil => simp at hlen
    | cons d v =>
      simp only [List.cons_append, List.cons_lt_cons_iff, List.length_cons,
        Nat.add_right_cancel_iff] at h hlen ⊢
      exact h.imp_right fun ⟨heq, hlt⟩ => ⟨heq, ih hlen hlt⟩

/-- The digits in front of the last one, `n` of them, with spaces for the leading zeros. -/
def column : Nat → Nat → List Char
  | 0, _ => []
  | width + 1, n =>
    if n = 0 then List.replicate (width + 1) ' '
    else column width (n / 10) ++ [Nat.digitChar (n % 10)]

lemma column_zero (width : Nat) : column width 0 = List.replicate width ' ' := by
  cases width <;> simp [column]

lemma length_column (width n : Nat) : (column width n).length = width := by
  induction width generalizing n with
  | zero => rfl
  | succ width ih =>
    rw [column]
    split_ifs
    · exact List.length_replicate
    · rw [List.length_append, ih, List.length_singleton]

lemma digitChar_lt {k l : Nat} (h : k < l) (hl : l < 10) : Nat.digitChar k < Nat.digitChar l := by
  have hall : ∀ l < 10, ∀ k < l, Nat.digitChar k < Nat.digitChar l := by decide
  exact hall l hl k h

lemma space_lt_digitChar {k : Nat} (h : k < 10) : ' ' < Nat.digitChar k := by
  have hall : ∀ k < 10, ' ' < Nat.digitChar k := by decide
  exact hall k h

lemma div_mod_cases (h : m < n) : m / 10 < n / 10 ∨ m / 10 = n / 10 ∧ m % 10 < n % 10 := by omega

lemma column_lt {width : Nat} (h : m < n) (hn : n < 10 ^ width) :
    column width m < column width n := by
  induction width generalizing m n with
  | zero =>
    simp only [Nat.pow_zero] at hn
    omega
  | succ width ih =>
    have hrest : n / 10 < 10 ^ width := Nat.div_lt_of_lt_mul (by rwa [Nat.pow_succ'] at hn)
    have hlast : n % 10 < 10 := Nat.mod_lt n (by decide)
    have hlen : ∀ k, (column width k).length = (column width (n / 10)).length := by
      intro k
      rw [length_column, length_column]
    simp only [column, if_neg (show n ≠ 0 by omega)]
    by_cases hm : m = 0
    · rw [if_pos hm, List.replicate_succ', ← column_zero]
      by_cases hq : n / 10 = 0
      · rw [hq]
        exact List.append_left_lt (List.cons_lt_cons_iff.2 (.inl (space_lt_digitChar hlast)))
      · exact lt_append_of_length_eq (hlen 0) (ih (Nat.pos_of_ne_zero hq) hrest)
    · rw [if_neg hm]
      rcases div_mod_cases h with hlt | ⟨heq, hlt⟩
      · exact lt_append_of_length_eq (hlen (m / 10)) (ih hlt hrest)
      · rw [heq]
        exact List.append_left_lt (List.cons_lt_cons_iff.2 (.inl (digitChar_lt hlt hlast)))

lemma padLeft_snoc (width : Nat) (text : List Char) (c : Char) :
    padLeft (width + 1) (text ++ [c]) = padLeft width text ++ [c] := by
  simp [padLeft]

lemma padLeft_decimal {width : Nat} (hn : n < 10 ^ (width + 1)) :
    padLeft (width + 1) (decimal n) = column width (n / 10) ++ [Nat.digitChar (n % 10)] := by
  induction width generalizing n with
  | zero =>
    have hlt : n < 10 := by simpa using hn
    simp [decimal, Nat.toDigits_of_lt_base hlt, padLeft, column, Nat.mod_eq_of_lt hlt]
  | succ width ih =>
    by_cases hlt : n < 10
    · rw [decimal, Nat.toDigits_of_lt_base hlt, Nat.div_eq_of_lt hlt, column_zero,
        Nat.mod_eq_of_lt hlt]
      rfl
    · have hle : 10 ≤ n := not_lt.1 hlt
      have hrest : n / 10 < 10 ^ (width + 1) := Nat.div_lt_of_lt_mul (by rwa [Nat.pow_succ'] at hn)
      have hne : n / 10 ≠ 0 := by omega
      rw [decimal, Nat.toDigits_of_base_le (by decide) hle, padLeft_snoc]
      rw [← decimal, ih hrest, column, if_neg hne]

/-- Numbers in a column wide enough are in the order of their texts. -/
lemma padLeft_decimal_lt {width : Nat} (h : m < n) (hn : n < 10 ^ (width + 1)) :
    padLeft (width + 1) (decimal m) < padLeft (width + 1) (decimal n) := by
  have hrest : n / 10 < 10 ^ width := Nat.div_lt_of_lt_mul (by rwa [Nat.pow_succ'] at hn)
  rw [padLeft_decimal (h.trans hn), padLeft_decimal hn]
  rcases div_mod_cases h with hlt | ⟨heq, hlt⟩
  · exact lt_append_of_length_eq (by rw [length_column, length_column]) (column_lt hlt hrest)
  · rw [heq]
    exact List.append_left_lt
      (List.cons_lt_cons_iff.2 (.inl (digitChar_lt hlt (Nat.mod_lt n (by decide)))))

lemma length_padLeft_decimal {width : Nat} (hn : n < 10 ^ (width + 1)) :
    (padLeft (width + 1) (decimal n)).length = width + 1 := by
  rw [padLeft_decimal hn, List.length_append, length_column, List.length_singleton]

end TiPI
