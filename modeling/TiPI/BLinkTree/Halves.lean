import TiPI.BLinkTree.NodeOps

/-!
# What a split keeps

The halves of a full node hold what the node held, in its order.
-/

namespace TiPI.BLinkTree

variable {L : Nat} {node left right : BTNode L} {other : Offset}

namespace BTNode

/-- As many keys as there is room for. -/
structure Full (node : BTNode L) : Prop where
  keyBuffSize : node.keyBuffSize = 2 * L
  buffSize : node.buffSize = if node.btnodeFlag LEAF_NODE then 2 * L else 2 * L + 1

/-- The leaves `left` and `right` hold the slots of `node`. -/
structure SplitsLeaf (node left right : BTNode L) : Prop where
  entries : left.entries ++ right.entries = node.entries
  highKey : right.keys.head? = some left.highKey

/-- The key between the halves of an internal node goes up. -/
structure SplitsInner (node left right : BTNode L) : Prop where
  keys : left.keys ++ left.highKey :: right.keys = node.keys
  children : left.children ++ right.children = node.children

/-- `left` and `right` are the halves of `node`, the right one at `other`. -/
structure Splits (node left right : BTNode L) (other : Offset) : Prop where
  leaf : node.btnodeFlag LEAF_NODE = true → SplitsLeaf node left right
  inner : node.btnodeFlag LEAF_NODE = false → SplitsInner node left right
  linked : left.right = other
  inherits : right.right = node.right ∧ right.highKey = node.highKey

/-- A list of `n + m` slots in two parts. -/
lemma map_range_append {α : Type*} (f g h : Nat → α) {n m k : Nat} (hk : k = n + m)
    (hf : ∀ i, i < n → f i = h i) (hg : ∀ i, i < m → g i = h (n + i)) :
    (List.range n).map f ++ (List.range m).map g = (List.range k).map h := by
  subst hk
  rw [List.range_add, List.map_append, List.map_map]
  congr 1
  · exact List.map_congr_left fun i hi => hf i (List.mem_range.1 hi)
  · exact List.map_congr_left fun i hi => hg i (List.mem_range.1 hi)

lemma split_splitsLeaf (hL : 2 ≤ L) (hfull : node.Full) (hleaf : node.btnodeFlag LEAF_NODE = true)
    (other : Offset) (fresh : Memory) :
    SplitsLeaf node (node.btnodeSplit other fresh).1 (node.btnodeSplit other fresh).2 := by
  obtain ⟨mem, heq, hkeys, hvalues⟩ := split_leaf hfull.keyBuffSize hleaf other fresh
  rw [heq]
  constructor
  · apply map_range_append
    · rw [hfull.keyBuffSize]
      exact Nat.two_mul L
    · intro i _
      rfl
    · intro i hi
      exact Prod.ext (hkeys i hi) (hvalues i hi)
  · obtain ⟨n, rfl⟩ : ∃ n, L = n + 1 := ⟨L - 1, by omega⟩
    rw [keys, List.range_succ_eq_map]
    exact congrArg some (hkeys 0 n.succ_pos)

/-- The children of the right half are there when eight words hold them, or when the memory from
`malloc` happens to hold the others. -/
lemma split_splitsInner_iff (hL : 2 ≤ L) (hfull : node.Full)
    (hleaf : node.btnodeFlag LEAF_NODE = false) (other : Offset) (fresh : Memory) :
    SplitsInner node (node.btnodeSplit other fresh).1 (node.btnodeSplit other fresh).2 ↔
      ∀ i, 8 ≤ i → i < L → fresh (2 * L + i) = node.nodeBuff (L + 1 + i) := by
  obtain ⟨mem, heq, hkeys, hcopied, hfresh⟩ := split_inner hL hfull.keyBuffSize hleaf other fresh
  have hbuff : node.buffSize = (L + 1) + L := by
    rw [hfull.buffSize, hleaf, if_neg Bool.false_ne_true]
    omega
  rw [heq]
  constructor
  · intro h i h8 hi
    have hget := congrArg (·[L + 1 + i]?) h.children
    simp only [children, hbuff] at hget
    rw [List.getElem?_append_right (by simp), List.length_map, List.length_range,
      Nat.add_sub_cancel_left] at hget
    simp only [List.getElem?_map, List.getElem?_range hi,
      List.getElem?_range (Nat.add_lt_add_left hi (L + 1)), Option.map_some] at hget
    rw [← hfresh i h8]
    exact Option.some.inj hget
  · intro h
    constructor
    · obtain ⟨n, rfl⟩ : ∃ n, L = n + 1 := ⟨L - 1, by omega⟩
      have hright : (List.range (n + 1)).map (fun i => node.keyBuff (n + 1 + i)) =
          node.keyBuff (n + 1) :: (List.range n).map mem := by
        rw [List.range_succ_eq_map, List.map_cons, List.map_map]
        congr 1
        refine List.map_congr_left fun i hi => ?_
        rw [hkeys i (List.mem_range.1 hi)]
        exact congrArg node.keyBuff (by omega)
      rw [keys, keys]
      exact (congrArg _ hright.symm).trans <|
        map_range_append _ _ _ (hfull.keyBuffSize.trans (Nat.two_mul _))
        (fun _ _ => rfl) fun _ _ => rfl
    · apply map_range_append
      · exact hbuff
      · intro i _
        rfl
      · intro i hi
        by_cases h8 : i < 8
        · exact hcopied i h8
        · exact (hfresh i (not_lt.1 h8)).trans (h i (not_lt.1 h8) hi)

lemma split_links (node : BTNode L) (other : Offset) (fresh : Memory) :
    (node.btnodeSplit other fresh).1.right = other ∧
      (node.btnodeSplit other fresh).2.right = node.right ∧
      (node.btnodeSplit other fresh).2.highKey = node.highKey := by
  unfold btnodeSplit
  simp only
  split_ifs <;> exact ⟨rfl, rfl, rfl⟩

/-- A split keeps everything, whatever the memory from `malloc` holds, exactly when the node is a
leaf or has at most 8 children to move. -/
theorem btnodeSplit_splits_iff (hL : 2 ≤ L) (hfull : node.Full) :
    (∀ other fresh, Splits node (node.btnodeSplit other fresh).1 (node.btnodeSplit other fresh).2
      other) ↔ node.btnodeFlag LEAF_NODE = true ∨ L ≤ 8 := by
  constructor
  · intro h
    by_contra hnot
    obtain ⟨hleaf, h8⟩ := not_or.1 hnot
    -- the block holds something else where the ninth child of the right half belongs
    have hinner := (h 0 fun _ => node.nodeBuff (L + 1 + 8) + 1).inner (Bool.not_eq_true _ ▸ hleaf)
    rw [split_splitsInner_iff hL hfull (Bool.not_eq_true _ ▸ hleaf)] at hinner
    exact absurd (hinner 8 le_rfl (not_le.1 h8)) (Nat.succ_ne_self _)
  · intro h other fresh
    obtain ⟨hlinked, hinherits⟩ := split_links node other fresh
    refine ⟨fun hleaf => split_splitsLeaf hL hfull hleaf other fresh, fun hinner => ?_, hlinked,
      hinherits⟩
    rw [split_splitsInner_iff hL hfull hinner]
    intro i h8 hi
    rcases h with hleaf | hL8
    · rw [hinner] at hleaf
      exact absurd hleaf Bool.false_ne_true
    · omega

/-- A full internal node for `L = 16`, with the keys `0, 1, ..` and children at `100, 101, ..`. -/
def sixteen : BTNode 16 where
  self := 7
  right := INVALID_OFFSET
  highKey := 0
  flag := ROOT_NODE
  buffSize := 33
  keyBuffSize := 32
  mem := fun i => if i < 32 then i else 68 + i

/-- A full leaf of thirty-two keys. -/
def sixteenLeaf : BTNode 16 :=
  { sixteen with flag := LEAF_NODE, buffSize := 32 }

theorem btnodeSplit_splits_sixteen :
    Splits sixteenLeaf (sixteenLeaf.btnodeSplit 200 fun _ => 0).1
      (sixteenLeaf.btnodeSplit 200 fun _ => 0).2 200 :=
  (btnodeSplit_splits_iff (by decide) ⟨rfl, rfl⟩).2 (.inl (by decide)) 200 fun _ => 0

/-- With a zeroed block eight of the sixteen children of the right half become zeros. -/
theorem sixteen_loses_children :
    sixteen.Full ∧ sixteen.btnodeFlag LEAF_NODE = false ∧
      ¬ Splits sixteen (sixteen.btnodeSplit 200 fun _ => 0).1 (sixteen.btnodeSplit 200 fun _ => 0).2
        200 := by
  refine ⟨⟨rfl, rfl⟩, rfl, fun h => ?_⟩
  exact absurd (h.inner rfl).children (by decide)

end BTNode

end TiPI.BLinkTree
