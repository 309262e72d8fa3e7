import Mathlib.Algebra.Group.Nat.Defs
import Mathlib.Data.List.Basic
import Mathlib.Data.List.TakeWhile

/-!
# Numbers and strings in arrays of bytes

Numbers have the low byte first, or the high byte first. A string ends before the first zero.
-/

namespace TiPI

/-! ### Numbers -/

/-- The `k` low bytes of `n`. -/
def lowBytes : Nat → Nat → List UInt8
  | 0, _ => []
  | k + 1, n => UInt8.ofNat n :: lowBytes k (n / 256)

def ofLowBytes : List UInt8 → Nat
  | [] => 0
  | b :: l => b.toNat + 256 * ofLowBytes l

@[simp] lemma length_lowBytes (k n : Nat) : (lowBytes k n).length = k := by
  induction k generalizing n with
  | zero => rfl
  | succ k ih => rw [lowBytes, List.length_cons, ih]

lemma ofLowBytes_lowBytes {k n : Nat} (h : n < 256 ^ k) : ofLowBytes (lowBytes k n) = n := by
  induction k generalizing n with
  | zero => exact (Nat.lt_one_iff.1 h).symm
  | succ k ih =>
    have hrest : n / 256 < 256 ^ k := Nat.div_lt_of_lt_mul (by rwa [Nat.pow_succ'] at h)
    rw [lowBytes, ofLowBytes, ih hrest, UInt8.toNat_ofNat']
    exact Nat.mod_add_div n 256

lemma ofLowBytes_lt (l : List UInt8) : ofLowBytes l < 256 ^ l.length := by
  induction l with
  | nil => exact Nat.zero_lt_one
  | cons b l ih =>
    have hb := b.toNat_lt
    rw [ofLowBytes, List.length_cons, Nat.pow_succ']
    omega

lemma lowBytes_ofLowBytes (l : List UInt8) : lowBytes l.length (ofLowBytes l) = l := by
  induction l with
  | nil => rfl
  | cons b l ih =>
    have hb := b.toNat_lt
    have hrest : (b.toNat + 256 * ofLowBytes l) / 256 = ofLowBytes l := by omega
    have hlow : UInt8.ofNat (b.toNat + 256 * ofLowBytes l) = b := by
      apply UInt8.toNat_inj.1
      rw [UInt8.toNat_ofNat']
      omega
    rw [List.length_cons, ofLowBytes, lowBytes, hrest, hlow, ih]

/-- The same bytes with the high byte first. -/
def highBytes (k n : Nat) : List UInt8 := (lowBytes k n).reverse

def ofHighBytes (l : List UInt8) : Nat := ofLowBytes l.reverse

@[simp] lemma length_highBytes (k n : Nat) : (highBytes k n).length = k := by
  rw [highBytes, List.length_reverse, length_lowBytes]

lemma ofHighBytes_highBytes {k n : Nat} (h : n < 256 ^ k) : ofHighBytes (highBytes k n) = n := by
  rw [ofHighBytes, highBytes, List.reverse_reverse, ofLowBytes_lowBytes h]

/-! ### Strings -/

variable {α : Type*} [Zero α] [DecidableEq α]

/-- The string that begins where `l` does. -/
def strAt (l : List α) : List α := l.takeWhile (· ≠ 0)

/-- `n` places that get the string at `l`, and zeros behind it. -/
def strncpy (l : List α) (n : Nat) : List α :=
  (strAt l).take n ++ List.replicate (n - (strAt l).length) 0

variable {c : α} {l l' : List α} {n : Nat}

lemma strAt_cons_zero : strAt (0 :: l) = [] := by
  simp [strAt]

lemma strAt_cons (hc : c ≠ 0) : strAt (c :: l) = c :: strAt l := by
  simp [strAt, hc]

lemma zero_notMem_strAt : 0 ∉ strAt l := by
  intro h
  simpa using List.mem_takeWhile_imp h

lemma strAt_of_notMem (h : 0 ∉ l) : strAt l = l :=
  List.takeWhile_eq_self_iff.2 fun c hc => by simpa using fun h0 : c = 0 => h (h0 ▸ hc)

@[simp] lemma length_strncpy (l : List α) (n : Nat) : (strncpy l n).length = n := by
  rw [strncpy, List.length_append, List.length_take, List.length_replicate]
  omega

lemma strncpy_nil (n : Nat) : strncpy ([] : List α) n = List.replicate n 0 := by
  simp [strncpy, strAt]

lemma strncpy_zero (l : List α) : strncpy l 0 = [] := List.length_eq_zero_iff.1 (length_strncpy l 0)

lemma strncpy_cons_zero : strncpy (0 :: l) n = List.replicate n 0 := by
  simp [strncpy, strAt_cons_zero]

lemma strncpy_cons (hc : c ≠ 0) : strncpy (c :: l) (n + 1) = c :: strncpy l n := by
  rw [strncpy, strAt_cons hc, List.length_cons, Nat.succ_sub_succ]
  rfl

lemma strncpy_strAt (l : List α) (n : Nat) : strncpy (strAt l) n = strncpy l n := by
  rw [strncpy, strAt_of_notMem zero_notMem_strAt]
  rfl

/-- Behind a zero, nothing comes through. -/
lemma strncpy_append (l l' : List α) (n : Nat) :
    strncpy (l ++ l') (l.length + n) =
      strncpy l l.length ++ if 0 ∈ l then List.replicate n 0 else strncpy l' n := by
  induction l with
  | nil => simp [strncpy_zero]
  | cons c l ih =>
    by_cases hc : c = 0
    · rw [hc, if_pos List.mem_cons_self, List.cons_append, strncpy_cons_zero, strncpy_cons_zero,
        List.replicate_append_replicate]
    · have hmem : 0 ∈ c :: l ↔ 0 ∈ l := by simp [Ne.symm hc]
      rw [List.length_cons, Nat.succ_add, List.cons_append, strncpy_cons hc, strncpy_cons hc, ih,
        List.cons_append]
      simp only [hmem]

/-- A copy of a copy, whatever stands behind it. -/
lemma strncpy_strncpy_append (l l' : List α) (n : Nat) :
    strncpy (strncpy l n ++ l') n = strncpy l n := by
  induction n generalizing l with
  | zero => rw [strncpy_zero, strncpy_zero]
  | succ n ih =>
    cases l with
    | nil => rw [strncpy_nil, List.replicate_succ, List.cons_append, strncpy_cons_zero,
        List.replicate_succ]
    | cons c l =>
      by_cases hc : c = 0
      · rw [hc, strncpy_cons_zero, List.replicate_succ, List.cons_append, strncpy_cons_zero,
          List.replicate_succ]
      · rw [strncpy_cons hc, List.cons_append, strncpy_cons hc, ih]

/-- What keeps its content: after a zero there are zeros only. -/
lemma strncpy_eq_self_iff :
    strncpy l l.length = l ↔ l.Pairwise fun c c' => c = 0 → c' = 0 := by
  induction l with
  | nil => simp [strncpy_zero]
  | cons c l ih =>
    rw [List.pairwise_cons]
    by_cases hc : c = 0
    · rw [hc, strncpy_cons_zero, List.length_cons, List.replicate_succ, List.cons_inj_right]
      constructor
      · intro h
        have hzero : ∀ c' ∈ l, c' = 0 := fun c' hc' => List.eq_of_mem_replicate (h ▸ hc')
        refine ⟨fun c' hc' _ => hzero c' hc', ?_⟩
        exact List.pairwise_of_forall_mem_list fun _ _ c' hc' _ => hzero c' hc'
      · rintro ⟨hzero, -⟩
        exact (List.eq_replicate_iff.2 ⟨rfl, fun c' hc' => hzero c' hc' rfl⟩).symm
    · rw [List.length_cons, strncpy_cons hc, List.cons_inj_right, ih]
      exact ⟨fun h => ⟨fun _ _ h0 => absurd h0 hc, h⟩, And.right⟩

/-- A copy is not its own later part. -/
lemma eq_nil_of_prefix_drop {k : Nat} (h0 : 0 ∉ l) (hk : 0 < k)
    (h : l <+: (strncpy l n).drop k) : l = [] := by
  by_contra hne
  have hpos : 0 < l.length := List.length_pos_iff.2 hne
  have hlen := h.length_le
  rw [List.length_drop, length_strncpy] at hlen
  have hlast : l.length - 1 < l.length := by omega
  refine h0 (List.mem_of_getElem (h := hlast) ?_)
  rw [h.getElem hlast, List.getElem_drop]
  simp only [strncpy, strAt_of_notMem h0]
  rw [List.getElem_append_right, List.getElem_replicate]
  rw [List.length_take]
  omega

end TiPI
