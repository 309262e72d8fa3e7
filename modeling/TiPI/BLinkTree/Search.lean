import TiPI.BLinkTree.NodeOps

/-!
# The reads of `fgoe`

The search is run again with a record of the slots it reads. Its upper bound starts one past the
last key, and it is the guard on the last key that keeps the middle of the interval off that slot.
-/

namespace TiPI.BLinkTree.BTNode

variable {L : Nat} {node : BTNode L} {key : Key} {nums : Nat → Key} {n fuel : Nat} {low high : Int}

/-- The loop of `fgoe` with the slots it reads and what it returns. `none` is a loop that is still
running when the fuel is used up. -/
def fgoeReads (nums : Nat → Key) (key : Key) : Nat → Int → Int → Option (List Int × Int)
  | 0, _, _ => none
  | fuel + 1, low, high =>
    if low ≤ high then
      let mid := (low + high) / 2
      if nums mid.toNat = key then some ([mid], mid)
      else if key < nums mid.toNat then
        (fgoeReads nums key fuel low (mid - 1)).map (Prod.map (mid :: ·) id)
      else (fgoeReads nums key fuel (mid + 1) high).map (Prod.map (mid :: ·) id)
    else some ([], low)

/-- `fgoe` with the slots it reads; the guard reads the last key. -/
def fgoeRun (node : BTNode L) (key : Key) (fuel : Nat) : Option (List Int × Int) :=
  let high : Int := node.keyBuffSize
  if node.keyBuff (high - 1).toNat < key then some ([high - 1], high)
  else (fgoeReads node.keyBuff key fuel 0 high).map (Prod.map ((high - 1) :: ·) id)

/-- With a key at the end that is not smaller, `low` never gets past the last slot, and the middle
of an interval from there to `n` is a live slot. -/
lemma exists_fgoeReads (hasc : Ascending nums n) (hlast : key ≤ nums (n - 1))
    (hfuel : high + 1 - low < fuel) (h0 : 0 ≤ low) (hlow : low < n) (hn : high ≤ n)
    (hlh : low ≤ high + 1) :
    ∃ reads, fgoeReads nums key fuel low high = some (reads, fgoeLoop nums key fuel low high) ∧
      ∀ i ∈ reads, 0 ≤ i ∧ i < n := by
  induction fuel generalizing low high with
  | zero => omega
  | succ fuel ih =>
    rw [fgoeReads, fgoeLoop]
    simp only
    split_ifs with hle heq hlt
    · refine ⟨[(low + high) / 2], rfl, ?_⟩
      intro i hi
      rw [List.mem_singleton] at hi
      omega
    · obtain ⟨reads, hrun, hreads⟩ := @ih low ((low + high) / 2 - 1)
        (by omega) h0 hlow (by omega) (by omega)
      refine ⟨(low + high) / 2 :: reads, by rw [hrun]; rfl, ?_⟩
      rw [List.forall_mem_cons]
      exact ⟨by omega, hreads⟩
    · have hmid : ((low + high) / 2).toNat < n - 1 := by
        by_contra hge
        apply hlt
        apply lt_of_le_of_ne
        · exact hlast.trans (hasc.le (by omega) (by omega))
        · exact Ne.symm heq
      obtain ⟨reads, hrun, hreads⟩ := @ih ((low + high) / 2 + 1) high
        (by omega) (by omega) (by omega) hn (by omega)
      refine ⟨(low + high) / 2 :: reads, by rw [hrun]; rfl, ?_⟩
      rw [List.forall_mem_cons]
      exact ⟨by omega, hreads⟩
    · exact ⟨[], rfl, by simp⟩

lemma fgoeLoop_nonneg (h0 : 0 ≤ low) : 0 ≤ fgoeLoop nums key fuel low high := by
  induction fuel generalizing low high with
  | zero => exact h0
  | succ fuel ih =>
    rw [fgoeLoop]
    simp only
    split_ifs with hle heq hlt
    · omega
    · exact ih h0
    · exact ih (by omega)
    · exact h0

/-- On a node with at least one key `fgoe` comes to an end, reads live keys only, and returns the
first slot whose key is not smaller, or the number of keys. -/
theorem fgoe_first (hpos : 1 ≤ node.keyBuffSize) (hsize : node.keyBuffSize ≤ 2 * L)
    (hasc : Ascending node.keyBuff node.keyBuffSize) (key : Key) :
    (∀ fuel, node.keyBuffSize + 2 ≤ fuel → ∃ reads,
      node.fgoeRun key fuel = some (reads, (node.fgoe key : Int)) ∧
      ∀ i ∈ reads, 0 ≤ i ∧ i < node.keyBuffSize ∧ 2 * i + 1 < 4 * L) ∧
    node.fgoe key ≤ node.keyBuffSize ∧
    (∀ i, i < node.fgoe key → node.keyBuff i < key) ∧
    (node.fgoe key < node.keyBuffSize → key ≤ node.keyBuff (node.fgoe key)) := by
  have hlb := fgoe_lowerBound hasc key
  refine ⟨?_, hlb.le, hlb.below, hlb.above _ le_rfl⟩
  intro fuel hfuel
  rw [fgoeRun, fgoe]
  simp only [Nat.one_le_iff_ne_zero.1 hpos, if_false]
  have hguard : ((node.keyBuffSize : Int) - 1).toNat = node.keyBuffSize - 1 := by omega
  rw [hguard]
  split_ifs with hlast
  · refine ⟨[(node.keyBuffSize : Int) - 1], rfl, ?_⟩
    intro i hi
    rw [List.mem_singleton] at hi
    omega
  · obtain ⟨reads, hrun, hreads⟩ := @exists_fgoeReads key node.keyBuff node.keyBuffSize fuel 0
      node.keyBuffSize hasc (not_lt.1 hlast) (by omega) le_rfl (by omega) le_rfl (by omega)
    refine ⟨((node.keyBuffSize : Int) - 1) :: reads, ?_, ?_⟩
    · rw [hrun, @fgoeLoop_fuel key _ fuel (node.keyBuffSize + 2) _ _ (by omega) (by omega),
        Int.toNat_of_nonneg (fgoeLoop_nonneg le_rfl)]
      rfl
    · intro i hi
      rcases List.mem_cons.1 hi with rfl | hi
      · omega
      · have := hreads i hi
        omega

/-- Three keys and a fourth word behind them that would stop the search there. -/
def threeKeys : BTNode 2 :=
  { self := 100, right := INVALID_OFFSET, highKey := 0, flag := LEAF_NODE, buffSize := 3
    keyBuffSize := 3
    mem := fun i => [10, 20, 30, 25].getD i 0 }

theorem fgoe_first_three : threeKeys.fgoe 25 = 2 ∧
    ∃ reads, threeKeys.fgoeRun 25 5 = some (reads, 2) ∧ ∀ i ∈ reads, 0 ≤ i ∧ i < 3 := by
  have hasc : Ascending threeKeys.keyBuff threeKeys.keyBuffSize := by
    have hall : ∀ j < 3, ∀ i < j, threeKeys.keyBuff i < threeKeys.keyBuff j := by decide
    intro i j hij hj
    exact hall j hj i hij
  have hfgoe : threeKeys.fgoe 25 = 2 := by decide
  obtain ⟨hruns, -⟩ := fgoe_first (by decide) (by decide) hasc 25
  obtain ⟨reads, hrun, hreads⟩ := hruns 5 le_rfl
  refine ⟨hfgoe, reads, hrun, ?_⟩
  intro i hi
  exact ⟨(hreads i hi).1, (hreads i hi).2.1⟩

end TiPI.BLinkTree.BTNode
