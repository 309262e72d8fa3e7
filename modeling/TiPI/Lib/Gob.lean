import TiPI.Lib.Chars

/-!
# Strings in gob streams

What `encoding/gob` makes of a string that is sent alone: a message that begins with its length,
with the number of the type and a zero in front of the string. A decoder reads one message and
leaves what is behind it.
-/

namespace TiPI

/-! ### Unsigned numbers -/

/-- The bytes of a number of 64 bits without leading zeros. -/
def byteCount : Nat → Nat → Nat
  | 0, _ => 0
  | k + 1, n => if n = 0 then 0 else byteCount k (n / 256) + 1

/-- Below 128 one byte, else the number of bytes, negated, and the bytes. -/
def encodeUint (n : Nat) : List UInt8 :=
  if n < 128 then [UInt8.ofNat n]
  else UInt8.ofNat (256 - byteCount 8 n) :: highBytes (byteCount 8 n) n

def decodeUint : List UInt8 → Option (Nat × List UInt8)
  | [] => none
  | b :: l =>
    if b.toNat < 128 then some (b.toNat, l)
    else
      let k := 256 - b.toNat
      if k ≤ 8 ∧ k ≤ l.length then some (ofHighBytes (l.take k), l.drop k) else none

lemma byteCount_le (k n : Nat) : byteCount k n ≤ k := by
  induction k generalizing n with
  | zero => exact le_rfl
  | succ k ih =>
    rw [byteCount]
    split_ifs
    · exact Nat.zero_le _
    · exact Nat.succ_le_succ (ih _)

lemma lt_pow_byteCount {k n : Nat} (h : n < 256 ^ k) : n < 256 ^ byteCount k n := by
  induction k generalizing n with
  | zero => exact h
  | succ k ih =>
    rw [byteCount]
    split_ifs with hn
    · rw [hn]
      exact Nat.one_pos
    · have hrest := ih (Nat.div_lt_of_lt_mul (by rwa [Nat.pow_succ'] at h))
      rw [Nat.pow_succ]
      omega

lemma decodeUint_encodeUint {n : Nat} (h : n < 2 ^ 64) (rest : List UInt8) :
    decodeUint (encodeUint n ++ rest) = some (n, rest) := by
  by_cases hsmall : n < 128
  · have htoNat : (UInt8.ofNat n).toNat = n := by
      rw [UInt8.toNat_ofNat']
      omega
    simp [encodeUint, decodeUint, hsmall, htoNat]
  · have hle := byteCount_le 8 n
    have hpow : n < 256 ^ byteCount 8 n := lt_pow_byteCount h
    have hpos : 0 < byteCount 8 n := by
      rw [byteCount, if_neg (by omega)]
      exact Nat.succ_pos _
    rw [encodeUint, if_neg hsmall]
    generalize byteCount 8 n = k at hle hpow hpos ⊢
    have htoNat : (UInt8.ofNat (256 - k)).toNat = 256 - k := by
      rw [UInt8.toNat_ofNat']
      omega
    have hk : 256 - (256 - k) = k := by omega
    simp only [List.cons_append, decodeUint, htoNat, hk]
    rw [if_neg (by omega), if_pos ⟨hle, by simp⟩, List.take_left' (length_highBytes k n),
      List.drop_left' (length_highBytes k n), ofHighBytes_highBytes hpow]

/-! ### Strings -/

/-- The number of the type of strings. -/
def stringId : Nat := 6

def encodeString (s : List UInt8) : List UInt8 :=
  let body := encodeUint (2 * stringId) ++ 0 :: (encodeUint s.length ++ s)
  encodeUint body.length ++ body

/-- Messages that define types are not read. -/
def decodeString (stream : List UInt8) : Option (List UInt8) :=
  match decodeUint stream with
  | none => none
  | some (n, l) =>
    if l.length < n then none
    else
      match decodeUint (l.take n) with
      | some (id, 0 :: l) =>
        if id ≠ 2 * stringId then none
        else
          match decodeUint l with
          | some (k, l) => if l.length < k then none else some (l.take k)
          | none => none
      | _ => none

lemma length_le_encodeString (s : List UInt8) : s.length ≤ (encodeString s).length := by
  simp only [encodeString, List.length_append, List.length_cons]
  omega

/-- A decoder finds the string that has been sent first. -/
lemma decodeString_encodeString {s : List UInt8} (h : (encodeString s).length < 2 ^ 64)
    (rest : List UInt8) : decodeString (encodeString s ++ rest) = some s := by
  have hlen := length_le_encodeString s
  set body := encodeUint (2 * stringId) ++ 0 :: (encodeUint s.length ++ s) with hbody
  have hencode : encodeString s = encodeUint body.length ++ body := rfl
  rw [hencode, List.length_append] at h hlen
  have hid : 2 * stringId < 2 ^ 64 := by decide
  rw [decodeString, hencode, List.append_assoc, decodeUint_encodeUint (by omega)]
  simp only [List.take_left, List.length_append]
  rw [if_neg (by omega), hbody, decodeUint_encodeUint hid]
  simp only [ne_eq, not_true_eq_false, if_false]
  rw [decodeUint_encodeUint (by omega)]
  simp

example : encodeString [104, 101, 108, 108, 111] = [8, 12, 0, 5, 104, 101, 108, 108, 111] := by
  decide

end TiPI
