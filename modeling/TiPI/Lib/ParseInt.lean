import Mathlib.Algebra.Order.Ring.Int
import Mathlib.Data.List.Induction
import Mathlib.Tactic.Linarith

/-!
# Decimal numbers

Texts are lists of bytes. `parseInt` reads a decimal number of a number of bits as
`strconv.ParseInt` does: what it reads fits into the bits, and all numbers that do are read.
-/

namespace TiPI

@[irreducible]
def digitVal (c : Char) : Nat := c.toNat - '0'.toNat

def Digits (text : List Char) : Prop := ∀ c ∈ text, c.isDigit

/-- The number that digits stand for behind those of `n`. -/
def digitsVal : (n : Nat) → List Char → Nat
  | n, [] => n
  | n, c :: text => digitsVal (n * 10 + digitVal c) text

lemma le_digitsVal (n : Nat) (text : List Char) : n ≤ digitsVal n text := by
  induction text generalizing n with
  | nil => rfl
  | cons c text ih =>
    rw [digitsVal]
    exact le_trans (by omega) (ih _)

lemma isDigit_digitChar {k : Nat} (h : k < 10) : (Nat.digitChar k).isDigit = true := by
  have hall : ∀ k < 10, (Nat.digitChar k).isDigit = true := by decide
  exact hall k h

lemma digitVal_digitChar {k : Nat} (h : k < 10) : digitVal (Nat.digitChar k) = k := by
  have hall : ∀ k < 10, digitVal (Nat.digitChar k) = k := by
    unfold digitVal
    decide
  exact hall k h

lemma digitVal_eq {c : Char} (h : c.isDigit) :
    digitVal c < 10 ∧ Nat.digitChar (digitVal c) = c := by
  have hc : 48 ≤ c.toNat ∧ c.toNat ≤ 57 := Char.isDigit_iff_toNat.1 h
  have hval : digitVal c = c.toNat - 48 := by
    unfold digitVal
    rfl
  have hlt : digitVal c < 10 := by omega
  refine ⟨hlt, Char.toNat_inj.1 ?_⟩
  rw [Nat.toNat_digitChar_of_lt_ten hlt]
  omega

/-- The last digits of a number, with leading zeros. -/
def fixedDigits : (width : Nat) → (n : Nat) → List Char
  | 0, _ => []
  | width + 1, n => fixedDigits width (n / 10) ++ [Nat.digitChar (n % 10)]

lemma length_fixedDigits (width n : Nat) : (fixedDigits width n).length = width := by
  induction width generalizing n with
  | zero => rfl
  | succ width ih => rw [fixedDigits, List.length_append, ih, List.length_singleton]

lemma digits_fixedDigits (width n : Nat) : Digits (fixedDigits width n) := by
  induction width generalizing n with
  | zero => simp [fixedDigits, Digits]
  | succ width ih =>
    intro c hc
    rcases List.mem_append.1 hc with hc | hc
    · exact ih _ c hc
    · rw [List.mem_singleton.1 hc]
      exact isDigit_digitChar (Nat.mod_lt n (by decide))

lemma digitsVal_append (n : Nat) (text text' : List Char) :
    digitsVal n (text ++ text') = digitsVal (digitsVal n text) text' := by
  induction text generalizing n with
  | nil => rfl
  | cons c text ih => rw [List.cons_append, digitsVal, ih, digitsVal]

lemma digitsVal_fixedDigits (width n : Nat) :
    digitsVal 0 (fixedDigits width n) = n % 10 ^ width := by
  induction width generalizing n with
  | zero => rw [fixedDigits, digitsVal, pow_zero, Nat.mod_one]
  | succ width ih =>
    rw [fixedDigits, digitsVal_append, ih, digitsVal, digitsVal,
      digitVal_digitChar (Nat.mod_lt n (by decide)), pow_succ', Nat.mod_mul, mul_comm, add_comm]

lemma fixedDigits_digitsVal {text : List Char} (h : Digits text) :
    fixedDigits text.length (digitsVal 0 text) = text := by
  induction text using List.reverseRecOn with
  | nil => rfl
  | append_singleton text c ih =>
    have htext : Digits text := fun d hd => h d (List.mem_append_left [c] hd)
    obtain ⟨hc, hc'⟩ := digitVal_eq (h c (by simp))
    rw [List.length_append, List.length_singleton, fixedDigits, digitsVal_append,
      digitsVal, digitsVal,
      show (digitsVal 0 text * 10 + digitVal c) / 10 = digitsVal 0 text by omega,
      show (digitsVal 0 text * 10 + digitVal c) % 10 = digitVal c by omega, ih htext, hc']

lemma digitsVal_lt {text : List Char} (h : Digits text) : digitsVal 0 text < 10 ^ text.length := by
  have hval := digitsVal_fixedDigits text.length (digitsVal 0 text)
  rw [fixedDigits_digitsVal h] at hval
  rw [hval]
  exact Nat.mod_lt _ (by positivity)

/-- The text is a number in digits, perhaps with a sign. -/
def IsNumeral (text : List Char) (n : ℤ) : Prop :=
  ∃ digits, digits ≠ [] ∧ Digits digits ∧
    ((text = digits ∨ text = '+' :: digits) ∧ n = digitsVal 0 digits ∨
      text = '-' :: digits ∧ n = -digitsVal 0 digits)

/-! ### `strconv.ParseInt` -/

inductive NumError
  | errSyntax
  | errRange
  deriving DecidableEq, Repr

/-- The value comes with an error: beyond `maxVal` it is `maxVal`. What does not fit into 64 bits is
beyond it, too. -/
def parseUintLoop (maxVal : Nat) : List Char → Nat → Nat × Option NumError
  | [], n => (n, none)
  | c :: text, n =>
    if c.isDigit then
      if n * 10 + digitVal c ≤ maxVal then parseUintLoop maxVal text (n * 10 + digitVal c)
      else (maxVal, some .errRange)
    else (0, some .errSyntax)

def parseUint (bitSize : Nat) (text : List Char) : Nat × Option NumError :=
  if text = [] then (0, some .errSyntax) else parseUintLoop (2 ^ bitSize - 1) text 0

/-- The number of a sign: one beyond the range of `parseUint` goes on as the largest there. -/
def signed (bitSize : Nat) (neg : Bool) : Nat × Option NumError → Except NumError ℤ
  | (_, some .errSyntax) => .error .errSyntax
  | (un, _) =>
    if neg = false ∧ 2 ^ (bitSize - 1) ≤ un then .error .errRange
    else if neg = true ∧ 2 ^ (bitSize - 1) < un then .error .errRange
    else .ok (if neg then -un else un)

def parseInt (bitSize : Nat) : List Char → Except NumError ℤ
  | '-' :: digits => signed bitSize true (parseUint bitSize digits)
  | '+' :: digits => signed bitSize false (parseUint bitSize digits)
  | text => signed bitSize false (parseUint bitSize text)

variable {maxVal bitSize : Nat} {text : List Char} {n : ℤ}

lemma parseUintLoop_of_le {m : Nat} (hdigits : Digits text) (hle : digitsVal m text ≤ maxVal) :
    parseUintLoop maxVal text m = (digitsVal m text, none) := by
  induction text generalizing m with
  | nil => rfl
  | cons c text ih =>
    have hc : c.isDigit = true := hdigits c List.mem_cons_self
    rw [digitsVal] at hle
    have hstep := (le_digitsVal _ text).trans hle
    rw [parseUintLoop, if_pos hc, if_pos hstep]
    exact ih (fun d hd => hdigits d (List.mem_cons_of_mem c hd)) hle

lemma parseUint_of_le {digits : List Char} (hne : digits ≠ []) (hdigits : Digits digits)
    (hlt : digitsVal 0 digits < 2 ^ bitSize) :
    parseUint bitSize digits = (digitsVal 0 digits, none) := by
  rw [parseUint, if_neg hne]
  exact parseUintLoop_of_le hdigits (Nat.le_sub_one_of_lt hlt)

lemma parseInt_of_digits {digits : List Char} (hne : digits ≠ []) (hdigits : Digits digits) :
    parseInt bitSize digits = signed bitSize false (parseUint bitSize digits) := by
  cases digits with
  | nil => rfl
  | cons c digits =>
    have hc : c.isDigit = true := hdigits c List.mem_cons_self
    unfold parseInt
    split
    · next heq =>
      cases heq
      simp at hc
    · next heq =>
      cases heq
      simp at hc
    · rfl

/-- A number that fits into the bits is read. -/
lemma parseInt_of_isNumeral (h : IsNumeral text n) (hbits : 0 < bitSize)
    (hlo : -2 ^ (bitSize - 1) ≤ n) (hhi : n < 2 ^ (bitSize - 1)) :
    parseInt bitSize text = .ok n := by
  have hhalf : 2 ^ bitSize = 2 * 2 ^ (bitSize - 1) := by
    rw [← pow_succ', Nat.sub_add_cancel hbits]
  have hpos : 0 < 2 ^ (bitSize - 1) := Nat.two_pow_pos _
  obtain ⟨digits, hne, hdigits, ⟨htext, rfl⟩ | ⟨rfl, rfl⟩⟩ := h
  · have hlt : digitsVal 0 digits < 2 ^ (bitSize - 1) := by exact_mod_cast hhi
    have hparse : parseInt bitSize text = signed bitSize false (parseUint bitSize digits) := by
      rcases htext with rfl | rfl
      · exact parseInt_of_digits hne hdigits
      · rfl
    rw [hparse, parseUint_of_le hne hdigits (by omega)]
    simp [signed, hlt]
  · have hle : digitsVal 0 digits ≤ 2 ^ (bitSize - 1) := by
      have hle := neg_le_neg_iff.1 hlo
      exact_mod_cast hle
    rw [parseInt, parseUint_of_le hne hdigits (by omega)]
    simp [signed, hle]

lemma signed_fits {neg : Bool} {r : Nat × Option NumError} (h : signed bitSize neg r = .ok n) :
    -2 ^ (bitSize - 1) ≤ n ∧ n < 2 ^ (bitSize - 1) := by
  unfold signed at h
  split at h
  · cases h
  · next un _ _ =>
    have hpos : (0 : ℤ) < 2 ^ (bitSize - 1) := by positivity
    split at h
    · cases h
    · next hplus =>
      split at h
      · cases h
      · next hminus =>
        cases neg with
        | false =>
          cases h
          have hlt : un < 2 ^ (bitSize - 1) := not_le.1 fun hle => hplus ⟨rfl, hle⟩
          have hlt' : (un : ℤ) < 2 ^ (bitSize - 1) := by exact_mod_cast hlt
          exact ⟨(neg_nonpos.2 hpos.le).trans (Int.natCast_nonneg un), hlt'⟩
        | true =>
          cases h
          have hle : un ≤ 2 ^ (bitSize - 1) := not_lt.1 fun hlt => hminus ⟨rfl, hlt⟩
          have hle' : (un : ℤ) ≤ 2 ^ (bitSize - 1) := by exact_mod_cast hle
          exact ⟨neg_le_neg hle', (neg_nonpos.2 (Int.natCast_nonneg un)).trans_lt hpos⟩

/-- What is read fits into the bits. -/
lemma parseInt_fits (h : parseInt bitSize text = .ok n) :
    -2 ^ (bitSize - 1) ≤ n ∧ n < 2 ^ (bitSize - 1) := by
  unfold parseInt at h
  split at h <;> exact signed_fits h

/-! ### What is refused -/

/-- The digits are a number up to `maxVal`, or get beyond it before anything else is read. -/
def Runs (maxVal : Nat) (text : List Char) (m : Nat) : Prop :=
  ∃ pre rest, Digits pre ∧ (rest = [] ∨ maxVal < digitsVal m pre) ∧ text = pre ++ rest

lemma runs_cons_iff {m : Nat} {c : Char} (hm : m ≤ maxVal) : Runs maxVal (c :: text) m ↔
    c.isDigit ∧ (maxVal < m * 10 + digitVal c ∨ Runs maxVal text (m * 10 + digitVal c)) := by
  constructor
  · rintro ⟨pre, rest, hpre, hrest, heq⟩
    cases pre with
    | nil =>
      rcases hrest with rfl | hlt
      · cases heq
      · exact absurd hm hlt.not_ge
    | cons d pre =>
      obtain ⟨rfl, rfl⟩ := List.cons.inj heq
      rw [digitsVal] at hrest
      exact ⟨hpre c List.mem_cons_self,
        .inr ⟨pre, rest, fun d hd => hpre d (List.mem_cons_of_mem c hd), hrest, rfl⟩⟩
  · rintro ⟨hc, hlt | ⟨pre, rest, hpre, hrest, rfl⟩⟩
    · exact ⟨[c], text, by simpa [Digits] using hc, .inr hlt, rfl⟩
    · exact ⟨c :: pre, rest, List.forall_mem_cons.2 ⟨hc, hpre⟩, hrest, rfl⟩

lemma parseUintLoop_errSyntax_iff {m : Nat} (hm : m ≤ maxVal) :
    (parseUintLoop maxVal text m).2 = some .errSyntax ↔ ¬ Runs maxVal text m := by
  induction text generalizing m with
  | nil =>
    have hruns : Runs maxVal [] m := ⟨[], [], by simp [Digits], .inl rfl, rfl⟩
    simp [parseUintLoop, hruns]
  | cons c text ih =>
    rw [parseUintLoop, runs_cons_iff hm]
    split
    · next hc =>
      split
      · next hle => simp [ih hle, hc, not_lt.2 hle]
      · next hlt => simp [hc, not_le.1 hlt]
    · next hc => simp [hc]

lemma parseUintLoop_le {m : Nat} (hm : m ≤ maxVal) : (parseUintLoop maxVal text m).1 ≤ maxVal := by
  induction text generalizing m with
  | nil => exact hm
  | cons c text ih =>
    rw [parseUintLoop]
    split_ifs with hc hle
    · exact ih hle
    · exact le_rfl
    · exact Nat.zero_le _

/-- What is not the largest number is read to the end. -/
lemma digits_of_parseUintLoop_lt {m : Nat}
    (herrs : (parseUintLoop maxVal text m).2 ≠ some .errSyntax)
    (hlt : (parseUintLoop maxVal text m).1 < maxVal) :
    Digits text ∧ digitsVal m text = (parseUintLoop maxVal text m).1 := by
  induction text generalizing m with
  | nil => exact ⟨by simp [Digits], rfl⟩
  | cons c text ih =>
    rw [parseUintLoop] at herrs hlt ⊢
    split at herrs
    · next hc =>
      rw [if_pos hc] at hlt ⊢
      split at herrs
      · next hle =>
        rw [if_pos hle] at hlt ⊢
        obtain ⟨htext, hval⟩ := ih herrs hlt
        exact ⟨List.forall_mem_cons.2 ⟨hc, htext⟩, hval⟩
      · next hle =>
        rw [if_neg hle] at hlt
        exact absurd hlt (lt_irrefl _)
    · exact absurd rfl herrs

lemma signed_ok_iff {neg : Bool} {r : Nat × Option NumError} :
    (∃ n, signed bitSize neg r = .ok n) ↔ r.2 ≠ some .errSyntax ∧
      (neg = false → r.1 < 2 ^ (bitSize - 1)) ∧ (neg = true → r.1 ≤ 2 ^ (bitSize - 1)) := by
  unfold signed
  split
  · simp
  · next un err herr =>
    split
    · next hplus => simp [hplus.1, hplus.2]
    · next hplus =>
      split
      · next hminus => simp [hminus.1, hminus.2]
      · next hminus =>
        refine iff_of_true ⟨_, rfl⟩ ⟨herr, fun hneg => ?_, fun hneg => ?_⟩
        · exact not_le.1 fun hle => hplus ⟨hneg, hle⟩
        · exact not_lt.1 fun hlt => hminus ⟨hneg, hlt⟩

lemma parseUint_errSyntax_iff : (parseUint bitSize text).2 ≠ some .errSyntax ↔
    text ≠ [] ∧ Runs (2 ^ bitSize - 1) text 0 := by
  unfold parseUint
  split
  · next hnil => simp [hnil]
  · next hne => simp [parseUintLoop_errSyntax_iff, hne]

end TiPI
