import TiPI.BLinkTree.Node
import TiPI.Lib.Ascending
import Mathlib.Order.Nat

/-!
# What the node operations do to the buffers

`fgoe` finds the lower bound in an ascending buffer, and the `memmove`s put in or move slots.
-/

namespace TiPI.BLinkTree.BTNode

variable {L : Nat} {node : BTNode L} {key : Key} {val : Value}

/-! ### `fgoe` -/

/-- The passes of the loop are bounded by the width of its interval, in any memory. -/
lemma fgoeLoop_fuel {nums : Nat → Key} {fuel fuel' : Nat} {low high : Int}
    (h : high + 1 - low < fuel) (h' : high + 1 - low < fuel') :
    fgoeLoop nums key fuel low high = fgoeLoop nums key fuel' low high := by
  induction fuel generalizing fuel' low high with
  | zero =>
    cases fuel' with
    | zero => rfl
    | succ fuel' => rw [fgoeLoop, fgoeLoop, if_neg (by omega)]
  | succ fuel ih =>
    cases fuel' with
    | zero => rw [fgoeLoop, fgoeLoop, if_neg (by omega)]
    | succ fuel' =>
      simp only [fgoeLoop]
      split_ifs with hle
      · rfl
      · exact ih (by omega) (by omega)
      · exact ih (by omega) (by omega)
      · rfl

/-- The loop narrows its interval around the lower bound. -/
lemma fgoeLoop_lowerBound {nums : Nat → Key} {n fuel : Nat} {low high : Int}
    (hasc : Ascending nums n) (hlast : ∃ i, i < n ∧ key ≤ nums i)
    (hfuel : high + 1 - low < fuel) (h0 : 0 ≤ low) (hn : high ≤ n) (hlh : low ≤ high + 1)
    (hbelow : ∀ i : Nat, i < low → nums i < key)
    (habove : ∀ i : Nat, high < i → i < n → key < nums i) :
    LowerBound nums n key (fgoeLoop nums key fuel low high).toNat := by
  have hlow : low < n := by
    obtain ⟨i, hi, hle⟩ := hlast
    by_contra hge
    exact absurd (hbelow i (by omega)) (not_lt.2 hle)
  induction fuel generalizing low high with
  | zero =>
    rw [fgoeLoop]
    exact ⟨by omega, fun i hi => hbelow i (by omega),
      fun i hi hin => (habove i (by omega) hin).le⟩
  | succ fuel ih =>
    rw [fgoeLoop]
    simp only
    split_ifs with hle heq hlt
    · -- the key is found at `mid`
      refine ⟨by omega, fun i hi => ?_, fun i hi hin => ?_⟩
      · rw [← heq]
        exact hasc _ _ hi (by omega)
      · rw [← heq]
        exact hasc.le hi hin
    · refine ih (by omega) h0 (by omega) (by omega) hbelow (fun i hi hin => ?_) hlow
      exact hlt.trans_le (hasc.le (by omega) hin)
    · have hmid : nums ((low + high) / 2).toNat < key :=
        lt_of_le_of_ne (not_lt.1 hlt) heq
      have hbelow' : ∀ i : Nat, (i : Int) < (low + high) / 2 + 1 → nums i < key :=
        fun i hi => (hasc.le (by omega) (by omega)).trans_lt hmid
      refine ih (by omega) (by omega) hn (by omega) hbelow' habove ?_
      obtain ⟨i, hi, hle'⟩ := hlast
      by_contra hge
      exact absurd (hbelow' i (by omega)) (not_lt.2 hle')
    · exact ⟨by omega, fun i hi => hbelow i (by omega),
        fun i hi hin => (habove i (by omega) hin).le⟩

lemma fgoe_lowerBound (hasc : Ascending node.keyBuff node.keyBuffSize) (key : Key) :
    LowerBound node.keyBuff node.keyBuffSize key (node.fgoe key) := by
  unfold fgoe
  simp only
  by_cases h0 : node.keyBuffSize = 0
  · -- the empty buffer: only the word in front of it is compared
    rw [if_pos h0, h0]
    by_cases hk : 0 < key
    · simp only [hk, if_true]
      exact ⟨le_rfl, fun i hi => absurd hi (by omega), fun i _ hi => absurd hi (by omega)⟩
    · obtain rfl : key = 0 := Nat.eq_zero_of_not_pos hk
      have : (fgoeLoop node.keyBuff 0 (0 + 2) 0 (0 : Nat)).toNat = 0 := by
        by_cases h : node.keyBuff 0 = 0
        · simp [fgoeLoop, h]
        · simp [fgoeLoop, h, Nat.pos_of_ne_zero h]
      rw [if_neg hk, this]
      exact ⟨le_rfl, fun i hi => absurd hi (by omega), fun i _ hi => absurd hi (by omega)⟩
  · rw [if_neg h0]
    by_cases hk : node.keyBuff (node.keyBuffSize - 1) < key
    · rw [if_pos hk]
      refine ⟨le_rfl, fun i hi => ?_, fun i hi hi' => absurd hi' (by omega)⟩
      exact (hasc.le (by omega) (by omega)).trans_lt hk
    · rw [if_neg hk]
      refine fgoeLoop_lowerBound hasc ⟨node.keyBuffSize - 1, by omega, not_lt.1 hk⟩
        (by omega) (Int.le_refl 0) (Int.le_refl _) (by omega) (fun i hi => absurd hi (by omega))
        (fun i hi hi' => absurd hi' (by omega))

/-! ### Buffers after `memmove` -/

/-- `btnodeAddKeyValue` of a new key in a leaf with room. -/
lemma addKeyValue_new (hasc : Ascending node.keyBuff node.keyBuffSize)
    (hsz : node.keyBuffSize < 2 * L) (hleaf : node.btnodeFlag LEAF_NODE = true)
    (hnew : ¬∃ i, i < node.keyBuffSize ∧ node.keyBuff i = key) (val : Value) :
    ∃ mem, node.btnodeAddKeyValue key val =
        { node with
          mem := mem, keyBuffSize := node.keyBuffSize + 1, buffSize := node.buffSize + 1 } ∧
      InsertedAt node.keyBuff mem node.keyBuffSize (node.fgoe key) key ∧
      InsertedAt node.valueBuff (fun i => (mem (2 * L + 2 * i), mem (2 * L + 2 * i + 1)))
        node.keyBuffSize (node.fgoe key) val := by
  have hle := (fgoe_lowerBound hasc key).le
  have hif : node.keyBuff (node.fgoe key) ≠ key ∨ node.fgoe key = node.keyBuffSize := by
    by_contra hhit
    push Not at hhit
    exact hnew ⟨_, by omega, hhit.1⟩
  unfold btnodeAddKeyValue
  simp only [hsz.ne, hleaf, hif, Bool.not_true, Bool.false_eq_true, or_self, if_false, if_true]
  generalize node.fgoe key = p at *
  refine ⟨_, rfl, ⟨fun i hi => ?_, ?_, fun i hi hin => ?_⟩,
    ⟨fun i hi => ?_, ?_, fun i hi hin => ?_⟩⟩
  · simp (disch := omega) only [setValue, memmove, Function.update_apply, if_neg, keyBuff]
  · simp (disch := omega) only [setValue, memmove, Function.update_apply, if_neg, if_true]
  · simp (disch := omega) only [setValue, memmove, Function.update_apply, if_neg, if_pos, keyBuff]
    congr 1
    omega
  · simp (disch := omega) only [setValue, memmove, Function.update_apply, if_neg, valueBuff]
  · simp (disch := omega) only [setValue, memmove, Function.update_apply, if_neg, if_true]
  · simp (disch := omega) only [setValue, memmove, Function.update_apply, if_neg, if_pos, valueBuff]
    congr 2
    · omega
    · omega

/-- `btnodeAddKeyValue` of a key that a leaf with room already has. -/
lemma addKeyValue_old (hasc : Ascending node.keyBuff node.keyBuffSize)
    (hsz : node.keyBuffSize < 2 * L) (hleaf : node.btnodeFlag LEAF_NODE = true)
    (hold : ∃ i, i < node.keyBuffSize ∧ node.keyBuff i = key) (val : Value) :
    ∃ mem p, node.btnodeAddKeyValue key val = { node with mem := mem } ∧
      p < node.keyBuffSize ∧ node.keyBuff p = key ∧
      (∀ i, i < node.keyBuffSize → mem i = node.keyBuff i) ∧
      ∀ i, i < node.keyBuffSize → (mem (2 * L + 2 * i), mem (2 * L + 2 * i + 1)) =
        if i = p then val else node.valueBuff i := by
  obtain ⟨hp, hkey⟩ := ((fgoe_lowerBound hasc key).hit_iff hasc).2 hold
  unfold btnodeAddKeyValue
  simp only [hsz.ne, hleaf, hkey, hp.ne, ne_eq, not_true_eq_false, Bool.not_true,
    Bool.false_eq_true, or_self, if_false]
  refine ⟨_, _, rfl, hp, hkey, fun i hi => ?_, fun i hi => ?_⟩
  · simp (disch := omega) only [setValue, Function.update_apply, if_neg, keyBuff]
  · generalize node.fgoe key = p at *
    by_cases hip : i = p
    · subst hip
      simp (disch := omega) only [setValue, Function.update_apply, if_neg, if_true]
    · simp (disch := omega) only [setValue, Function.update_apply, if_neg, valueBuff]

/-- A full leaf is left as it is, also when it has the key. -/
lemma addKeyValue_full (hsz : node.keyBuffSize = 2 * L) :
    node.btnodeAddKeyValue key val = node := by
  simp [btnodeAddKeyValue, hsz]

/-- `btnodeAddKeyChild` of a node with room. -/
lemma addKeyChild_new (hasc : Ascending node.keyBuff node.keyBuffSize)
    (hsz : node.keyBuffSize < 2 * L) (key : Key) (child : Offset) :
    ∃ mem, node.btnodeAddKeyChild key child =
        { node with
          mem := mem, keyBuffSize := node.keyBuffSize + 1, buffSize := node.buffSize + 1 } ∧
      InsertedAt node.keyBuff mem node.keyBuffSize (node.fgoe key) key ∧
      mem (2 * L) = node.nodeBuff 0 ∧
      InsertedAt (fun i => node.nodeBuff (i + 1)) (fun i => mem (2 * L + (i + 1)))
        node.keyBuffSize (node.fgoe key) child := by
  have hle := (fgoe_lowerBound hasc key).le
  unfold btnodeAddKeyChild
  generalize node.fgoe key = p at *
  refine ⟨_, rfl, ⟨fun i hi => ?_, ?_, fun i hi hin => ?_⟩, ?_,
    ⟨fun i hi => ?_, ?_, fun i hi hin => ?_⟩⟩
  · simp (disch := omega) only [memmove, Function.update_apply, if_neg, keyBuff]
  · simp (disch := omega) only [memmove, Function.update_apply, if_neg, if_true]
  · simp (disch := omega) only [memmove, Function.update_apply, if_neg, if_pos, keyBuff]
    congr 1
    omega
  · simp (disch := omega) only [memmove, Function.update_apply, if_neg, nodeBuff, Nat.add_zero]
  · simp (disch := omega) only [memmove, Function.update_apply, if_neg, nodeBuff]
  · simp (disch := omega) only [Function.update_apply, if_pos]
  · simp (disch := omega) only [memmove, Function.update_apply, if_neg, if_pos, nodeBuff]
    congr 1
    omega

lemma addKeyValue_frame (node : BTNode L) (key : Key) (val : Value) :
    (node.btnodeAddKeyValue key val).self = node.self ∧
    (node.btnodeAddKeyValue key val).highKey = node.highKey ∧
    (node.btnodeAddKeyValue key val).flag = node.flag := by
  unfold btnodeAddKeyValue
  simp only
  split_ifs <;> exact ⟨rfl, rfl, rfl⟩

/-! ### Halves -/

lemma flag_and_not_root (flag : BitVec 32) :
    (flag &&& ~~~ROOT_NODE) &&& LEAF_NODE = flag &&& LEAF_NODE ∧
    (flag &&& ~~~ROOT_NODE) &&& ROOT_NODE = 0#32 := by
  constructor
  · rw [BitVec.and_assoc, show ~~~ROOT_NODE &&& LEAF_NODE = LEAF_NODE by decide]
  · rw [BitVec.and_assoc, show ~~~ROOT_NODE &&& ROOT_NODE = 0#32 by decide, BitVec.and_zero]

lemma btnodeFlag_leaf {half : BTNode L} (h : half.flag = node.flag &&& ~~~ROOT_NODE) :
    half.btnodeFlag LEAF_NODE = node.btnodeFlag LEAF_NODE := by
  rw [btnodeFlag, btnodeFlag, h, (flag_and_not_root node.flag).1]

lemma btnodeFlag_root {half : BTNode L} (h : half.flag = node.flag &&& ~~~ROOT_NODE) :
    half.btnodeFlag ROOT_NODE = false := by
  rw [btnodeFlag, h, (flag_and_not_root node.flag).2]
  decide

@[simp] lemma btnodeSplit_left (node : BTNode L) (other : Offset) (fresh : Memory) :
    (node.btnodeSplit other fresh).1.self = node.self ∧
    (node.btnodeSplit other fresh).1.highKey = node.keyBuff (node.keyBuffSize / 2) ∧
    (node.btnodeSplit other fresh).1.keyBuffSize = node.keyBuffSize / 2 ∧
    (node.btnodeSplit other fresh).1.flag = node.flag &&& ~~~ROOT_NODE := by
  unfold btnodeSplit
  simp only
  split_ifs <;> exact ⟨rfl, rfl, rfl, rfl⟩

@[simp] lemma btnodeSplit_right (node : BTNode L) (other : Offset) (fresh : Memory) :
    (node.btnodeSplit other fresh).2.self = other ∧
    (node.btnodeSplit other fresh).2.keyBuffSize ≤ node.keyBuffSize - node.keyBuffSize / 2 ∧
    (node.btnodeSplit other fresh).2.flag = node.flag &&& ~~~ROOT_NODE := by
  unfold btnodeSplit
  simp only
  split_ifs
  · exact ⟨rfl, le_rfl, rfl⟩
  · exact ⟨rfl, Nat.sub_le _ _, rfl⟩

/-- The halves of a full leaf. -/
lemma split_leaf (hsz : node.keyBuffSize = 2 * L) (hleaf : node.btnodeFlag LEAF_NODE = true)
    (other : Offset) (fresh : Memory) :
    ∃ mem, node.btnodeSplit other fresh =
        ({ node with
            flag := node.flag &&& ~~~ROOT_NODE, right := other, highKey := node.keyBuff L
            keyBuffSize := L, buffSize := L },
          { self := other, right := node.right, highKey := node.highKey
            flag := node.flag &&& ~~~ROOT_NODE, keyBuffSize := L, buffSize := L, mem := mem }) ∧
      (∀ i, i < L → mem i = node.keyBuff (L + i)) ∧
      ∀ i, i < L → (mem (2 * L + 2 * i), mem (2 * L + 2 * i + 1)) = node.valueBuff (L + i) := by
  have hmid : 2 * L / 2 = L := by omega
  have hsub : 2 * L - L = L := by omega
  unfold btnodeSplit
  simp only [hsz, hmid, hsub]
  rw [if_pos ((btnodeFlag_leaf rfl).trans hleaf)]
  refine ⟨_, rfl, fun i hi => ?_, fun i hi => ?_⟩
  · simp (disch := omega) only [memmove, if_neg, if_pos, keyBuff]
    congr 1
  · simp (disch := omega) only [memmove, if_pos, valueBuff]
    congr 2
    · omega
    · omega

/-- The halves of a full internal node. Eight children are copied, whatever `L` is. -/
lemma split_inner (h2 : 2 ≤ L) (hsz : node.keyBuffSize = 2 * L)
    (hleaf : node.btnodeFlag LEAF_NODE = false) (other : Offset) (fresh : Memory) :
    ∃ mem, node.btnodeSplit other fresh =
        ({ node with
            flag := node.flag &&& ~~~ROOT_NODE, right := other, highKey := node.keyBuff L
            keyBuffSize := L, buffSize := L + 1 },
          { self := other, right := node.right, highKey := node.highKey
            flag := node.flag &&& ~~~ROOT_NODE, keyBuffSize := L - 1, buffSize := L
            mem := mem }) ∧
      (∀ i, i < L - 1 → mem i = node.keyBuff (L + 1 + i)) ∧
      (∀ i, i < 8 → mem (2 * L + i) = node.nodeBuff (L + 1 + i)) ∧
      ∀ i, 8 ≤ i → mem (2 * L + i) = fresh (2 * L + i) := by
  have hmid : 2 * L / 2 = L := by omega
  have hsub : 2 * L - L = L := by omega
  unfold btnodeSplit
  simp only [hsz, hmid, hsub]
  rw [if_neg (by rw [btnodeFlag_leaf rfl, hleaf]; exact Bool.false_ne_true)]
  refine ⟨_, rfl, fun i hi => ?_, fun i hi => ?_, fun i hi => ?_⟩
  · by_cases h8 : 2 * L ≤ i
    · omega
    · simp (disch := omega) only [memmove, if_neg, if_pos, keyBuff]
      congr 1
  · simp (disch := omega) only [memmove, if_pos, nodeBuff]
    congr 1
    omega
  · simp (disch := omega) only [memmove, if_neg]

end TiPI.BLinkTree.BTNode
