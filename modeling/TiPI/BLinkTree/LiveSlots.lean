import TiPI.BLinkTree.NodeOps

/-!
# Live slots

What the operations on a node make of its live slots, and when a lookup depends on the others.
-/

namespace TiPI.BLinkTree.BTNode

variable {L : Nat} {node other : BTNode L} {key : Key} {val : Value}

/-- The live keys that are smaller. -/
def rank (node : BTNode L) (key : Key) : Nat := (node.keys.filter (· < key)).length

lemma rank_eq {p : Nat} (h : LowerBound node.keyBuff node.keyBuffSize key p) :
    node.rank key = p := by
  rw [rank, keys, List.filter_map, List.length_map]
  exact (congrArg List.length h.filter_lt).trans List.length_range

lemma fgoe_eq_rank (hasc : Ascending node.keyBuff node.keyBuffSize) (key : Key) :
    node.fgoe key = node.rank key := (rank_eq (fgoe_lowerBound hasc key)).symm

lemma mem_keys_iff : key ∈ node.keys ↔ ∃ i, i < node.keyBuffSize ∧ node.keyBuff i = key := by
  simp [keys]

/-! ### Insertions -/

/-- What insertions leave as it is. -/
structure SameHeader (node other : BTNode L) : Prop where
  self : other.self = node.self
  right : other.right = node.right
  highKey : other.highKey = node.highKey
  flag : other.flag = node.flag

/-- The leaf with the key bound to the value. -/
structure Bound (node : BTNode L) (key : Key) (val : Value) (res : BTNode L) : Prop
    extends SameHeader node res where
  entries : res.entries = node.entries.filter (·.1 < key) ++ (key, val) ::
    node.entries.filter (key < ·.1)
  keyBuffSize : res.keyBuffSize = if key ∈ node.keys then node.keyBuffSize else node.keyBuffSize + 1
  buffSize : res.buffSize = if key ∈ node.keys then node.buffSize else node.buffSize + 1

/-- The children between and beside the live keys. -/
def slots (node : BTNode L) : List Offset := (List.range (node.keyBuffSize + 1)).map node.nodeBuff

/-- The node with the key put in, and the child behind the one whose range the key was in. -/
structure Parted (node : BTNode L) (key : Key) (child : Offset) (res : BTNode L) : Prop
    extends SameHeader node res where
  keys : res.keys = node.keys.filter (· < key) ++ key :: node.keys.filter (key < ·)
  slots : res.slots = node.slots.take (node.rank key + 1) ++ child ::
    node.slots.drop (node.rank key + 1)
  keyBuffSize : res.keyBuffSize = node.keyBuffSize + 1
  buffSize : res.buffSize = node.buffSize + 1

lemma filter_entries (P : Key → Bool) :
    node.entries.filter (fun e => P e.1) =
      ((List.range node.keyBuffSize).filter fun i => P (node.keyBuff i)).map fun i =>
        (node.keyBuff i, node.valueBuff i) := by
  rw [entries, List.filter_map]
  rfl

lemma btnodeAddKeyValue_bound (hasc : Ascending node.keyBuff node.keyBuffSize)
    (hsz : node.keyBuffSize < 2 * L) (hleaf : node.btnodeFlag LEAF_NODE = true) (key : Key)
    (val : Value) : node.Bound key val (node.btnodeAddKeyValue key val) := by
  have hlb := fgoe_lowerBound hasc key
  by_cases hold : ∃ i, i < node.keyBuffSize ∧ node.keyBuff i = key
  · obtain ⟨mem, p, heq, hp, rfl, hkeys, hvals⟩ := addKeyValue_old hasc hsz hleaf hold val
    obtain ⟨hfgoe, hhit⟩ := (hlb.hit_iff hasc).2 hold
    rw [hasc.injective hfgoe hp hhit] at hlb
    rw [heq]
    refine ⟨⟨rfl, rfl, rfl, rfl⟩, ?_, (if_pos (mem_keys_iff.2 hold)).symm,
      (if_pos (mem_keys_iff.2 hold)).symm⟩
    rw [filter_entries (fun k => decide (k < node.keyBuff p)),
      filter_entries (fun k => decide (node.keyBuff p < k)), hlb.filter_lt,
      hlb.filter_gt_of_hit hasc hp rfl, entries]
    have hreplace := map_range_replace (f := fun i => (node.keyBuff i, node.valueBuff i))
      (g := fun i => (mem i, (mem (2 * L + 2 * i), mem (2 * L + 2 * i + 1)))) hp ?_
    · rwa [hkeys p hp, hvals p hp, if_pos rfl] at hreplace
    · intro i hi hip
      rw [hkeys i hi, hvals i hi, if_neg hip]
  · obtain ⟨mem, heq, hkeys, hvals⟩ := addKeyValue_new hasc hsz hleaf hold val
    rw [heq]
    refine ⟨⟨rfl, rfl, rfl, rfl⟩, ?_, (if_neg fun h => hold (mem_keys_iff.1 h)).symm,
      (if_neg fun h => hold (mem_keys_iff.1 h)).symm⟩
    have hmiss : ∀ i, i < node.keyBuffSize → node.keyBuff i ≠ key := fun i hi hk => hold ⟨i, hi, hk⟩
    rw [filter_entries (fun k => decide (k < key)), filter_entries (fun k => decide (key < k)),
      hlb.filter_lt, hlb.filter_gt_of_miss hmiss]
    exact (hkeys.prod hvals).map_range hlb.le

lemma btnodeAddKeyChild_parted (hasc : Ascending node.keyBuff node.keyBuffSize)
    (hsz : node.keyBuffSize < 2 * L) (key : Key) (hnew : key ∉ node.keys) (child : Offset) :
    node.Parted key child (node.btnodeAddKeyChild key child) := by
  have hlb := fgoe_lowerBound hasc key
  have hmiss : ∀ i, i < node.keyBuffSize → node.keyBuff i ≠ key := by
    intro i hi hk
    exact hnew (mem_keys_iff.2 ⟨i, hi, hk⟩)
  obtain ⟨mem, heq, hkeys, hfirst, hkids⟩ := addKeyChild_new hasc hsz key child
  rw [heq]
  refine ⟨⟨rfl, rfl, rfl, rfl⟩, ?_, ?_, rfl, rfl⟩
  · rw [keys, keys, List.filter_map, List.filter_map]
    exact (hkeys.map_range hlb.le).trans <| by
      rw [← hlb.filter_lt, ← hlb.filter_gt_of_miss hmiss]
      rfl
  · have hslots : ∀ res : BTNode L, res.slots =
        res.nodeBuff 0 :: (List.range res.keyBuffSize).map fun i => res.nodeBuff (i + 1) := by
      intro res
      rw [slots, List.range_succ_eq_map, List.map_cons, List.map_map]
      rfl
    rw [hslots, hslots, rank_eq hlb, List.take_succ_cons, List.drop_succ_cons, List.cons_append,
      ← List.map_take, ← List.map_drop, List.take_range, Nat.min_eq_left hlb.le]
    congr 1
    exact hkids.map_range hlb.le

/-- Two leaves with the same live slots. -/
structure LeafAlike (node other : BTNode L) : Prop extends SameHeader node other where
  keyBuffSize : other.keyBuffSize = node.keyBuffSize
  buffSize : other.buffSize = node.buffSize
  entries : other.entries = node.entries

/-- Two internal nodes with the same live slots. -/
structure InnerAlike (node other : BTNode L) : Prop extends SameHeader node other where
  keyBuffSize : other.keyBuffSize = node.keyBuffSize
  buffSize : other.buffSize = node.buffSize
  keys : other.keys = node.keys
  slots : other.slots = node.slots

lemma SameHeader.trans_of {res res' : BTNode L} (h : SameHeader node other)
    (hres : SameHeader node res) (hres' : SameHeader other res') : SameHeader res res' where
  self := by rw [hres'.self, h.self, hres.self]
  right := by rw [hres'.right, h.right, hres.right]
  highKey := by rw [hres'.highKey, h.highKey, hres.highKey]
  flag := by rw [hres'.flag, h.flag, hres.flag]

lemma keys_eq_entries (node : BTNode L) : node.keys = node.entries.map Prod.fst := by
  rw [keys, entries, List.map_map]
  rfl

/-- Nodes with the same live keys ascend together. -/
lemma ascending_of_keys (hasc : Ascending node.keyBuff node.keyBuffSize)
    (hsize : other.keyBuffSize = node.keyBuffSize) (hkeys : other.keys = node.keys) :
    Ascending other.keyBuff other.keyBuffSize := by
  rw [keys, keys, hsize, List.map_inj_left] at hkeys
  rw [hsize]
  intro i j hij hj
  rw [hkeys i (List.mem_range.2 (hij.trans hj)), hkeys j (List.mem_range.2 hj)]
  exact hasc i j hij hj

lemma Bound.alike {res res' : BTNode L} (h : LeafAlike node other) (hres : Bound node key val res)
    (hres' : Bound other key val res') : LeafAlike res res' where
  toSameHeader := h.toSameHeader.trans_of hres.toSameHeader hres'.toSameHeader
  keyBuffSize := by
    rw [hres.keyBuffSize, hres'.keyBuffSize, h.keyBuffSize, keys_eq_entries, keys_eq_entries,
      h.entries]
  buffSize := by
    rw [hres.buffSize, hres'.buffSize, h.buffSize, keys_eq_entries, keys_eq_entries, h.entries]
  entries := by rw [hres.entries, hres'.entries, h.entries]

lemma Parted.alike {child : Offset} {res res' : BTNode L} (h : InnerAlike node other)
    (hres : Parted node key child res) (hres' : Parted other key child res') :
    InnerAlike res res' where
  toSameHeader := h.toSameHeader.trans_of hres.toSameHeader hres'.toSameHeader
  keyBuffSize := by rw [hres.keyBuffSize, hres'.keyBuffSize, h.keyBuffSize]
  buffSize := by rw [hres.buffSize, hres'.buffSize, h.buffSize]
  keys := by rw [hres.keys, hres'.keys, h.keys]
  slots := by rw [hres.slots, hres'.slots, h.slots, rank, rank, h.keys]

/-- Both insertions do to the live slots what they are for, whatever the dead slots hold. -/
theorem insert_exact {L : Nat} (node : BTNode L) (hasc : Ascending node.keyBuff node.keyBuffSize)
    (hsz : node.keyBuffSize < 2 * L) :
    (node.btnodeFlag LEAF_NODE = true → ∀ key val,
      node.Bound key val (node.btnodeAddKeyValue key val) ∧ ∀ other, node.LeafAlike other →
        (node.btnodeAddKeyValue key val).LeafAlike (other.btnodeAddKeyValue key val)) ∧
    ∀ key, key ∉ node.keys → ∀ child,
      node.Parted key child (node.btnodeAddKeyChild key child) ∧ ∀ other, node.InnerAlike other →
        (node.btnodeAddKeyChild key child).InnerAlike (other.btnodeAddKeyChild key child) := by
  constructor
  · intro hleaf key val
    have hbound := btnodeAddKeyValue_bound hasc hsz hleaf key val
    refine ⟨hbound, fun other h => Bound.alike h hbound ?_⟩
    apply btnodeAddKeyValue_bound
    · apply ascending_of_keys hasc h.keyBuffSize
      rw [keys_eq_entries, keys_eq_entries, h.entries]
    · rwa [h.keyBuffSize]
    · rwa [btnodeFlag, h.flag]
  · intro key hnew child
    have hparted := btnodeAddKeyChild_parted hasc hsz key hnew child
    refine ⟨hparted, fun other h => Parted.alike h hparted ?_⟩
    apply btnodeAddKeyChild_parted
    · exact ascending_of_keys hasc h.keyBuffSize h.keys
    · rwa [h.keyBuffSize]
    · rwa [h.keys]

/-- A node with the live keys `10` and `30`, and `30` again behind them. -/
def tenThirty (flag : BitVec 32) (buffSize : Nat) : BTNode 2 where
  self := 100
  right := INVALID_OFFSET
  highKey := 0
  flag := flag
  buffSize := buffSize
  keyBuffSize := 2
  mem i := if i = 0 then 10 else 30

lemma tenThirty_ascending (flag : BitVec 32) (buffSize : Nat) :
    Ascending (tenThirty flag buffSize).keyBuff (tenThirty flag buffSize).keyBuffSize := by
  intro i j hij hj
  obtain ⟨rfl, rfl⟩ : i = 0 ∧ j = 1 := by
    have hj' : j < 2 := hj
    omega
  exact (by decide : (10 : Nat) < 30)

theorem insert_twenty :
    (tenThirty LEAF_NODE 2).Bound 20 (7, 0) ((tenThirty LEAF_NODE 2).btnodeAddKeyValue 20 (7, 0)) ∧
    (tenThirty INTERNAL_NODE 3).Parted 20 240
      ((tenThirty INTERNAL_NODE 3).btnodeAddKeyChild 20 240) :=
  ⟨((insert_exact (tenThirty LEAF_NODE 2) (tenThirty_ascending _ _) (by decide)).1 (by decide) 20
      (7, 0)).1,
    ((insert_exact (tenThirty INTERNAL_NODE 3) (tenThirty_ascending _ _) (by decide)).2 20
      (by decide) 240).1⟩

/-! ### Lookups -/

/-- The nodes agree on what is live. -/
structure SameLive (node other : BTNode L) : Prop where
  flag : other.flag = node.flag
  keyBuffSize : other.keyBuffSize = node.keyBuffSize
  buffSize : other.buffSize = node.buffSize
  keys : ∀ i, i < node.keyBuffSize → other.keyBuff i = node.keyBuff i
  children : node.btnodeFlag LEAF_NODE = false →
    ∀ i, i < node.buffSize → other.nodeBuff i = node.nodeBuff i
  values : node.btnodeFlag LEAF_NODE = true →
    ∀ i, i < node.buffSize → other.valueBuff i = node.valueBuff i

def SameLookups (node other : BTNode L) (key : Key) : Prop :=
  other.btnodeChildByKey key = node.btnodeChildByKey key ∧
    other.btnodeValueByKey key = node.btnodeValueByKey key

/-- The word a lookup compares with the key is live: a live key, or the first word of the union
behind the keys of a full node. -/
def ComparesLive (node : BTNode L) (key : Key) : Prop :=
  node.rank key < node.keyBuffSize ∨ (node.keyBuffSize = 2 * L ∧ 0 < node.buffSize)

instance (node : BTNode L) (key : Key) : Decidable (node.ComparesLive key) :=
  inferInstanceAs (Decidable (_ ∨ _))

/-- A lookup of the key ends in a live slot, and dead ones could not send it elsewhere. -/
def Settled (node : BTNode L) (key : Key) : Prop :=
  if node.btnodeFlag LEAF_NODE then
    if node.ComparesLive key then
      node.keyBuff (node.rank key) = key → node.rank key < node.buffSize
    else node.keyBuffSize < node.buffSize ∧ node.valueBuff node.keyBuffSize = (0, 0)
  else
    if node.ComparesLive key then
      (if node.keyBuff (node.rank key) = key then node.rank key + 1 else node.rank key) <
        node.buffSize
    else node.keyBuffSize + 1 < node.buffSize ∧
      node.nodeBuff (node.keyBuffSize + 1) = node.nodeBuff node.keyBuffSize

lemma rank_le (node : BTNode L) (key : Key) : node.rank key ≤ node.keyBuffSize := by
  refine (List.length_filter_le _ _).trans ?_
  rw [keys, List.length_map, List.length_range]

lemma rank_eq_of_not_comparesLive (h : ¬node.ComparesLive key) : node.rank key = node.keyBuffSize :=
  le_antisymm (node.rank_le key) (not_lt.1 fun hlt => h (.inl hlt))

lemma SameLive.keys_eq (h : SameLive node other) : other.keys = node.keys := by
  rw [BTNode.keys, BTNode.keys, h.keyBuffSize]
  exact List.map_congr_left fun i hi => h.keys i (List.mem_range.1 hi)

lemma SameLive.fgoe_eq (h : SameLive node other) (hasc : Ascending node.keyBuff node.keyBuffSize)
    (key : Key) : other.fgoe key = node.rank key := by
  rw [fgoe_eq_rank (ascending_of_keys hasc h.keyBuffSize h.keys_eq), rank, rank, h.keys_eq]

/-- What the lookups return, by the word they compare. -/
lemma SameLive.lookups_eq (h : SameLive node other)
    (hasc : Ascending node.keyBuff node.keyBuffSize) (key : Key) :
    (other.btnodeChildByKey key =
      if node.btnodeFlag LEAF_NODE then INVALID_OFFSET
      else if other.keyBuff (node.rank key) = key then other.nodeBuff (node.rank key + 1)
      else other.nodeBuff (node.rank key)) ∧
    other.btnodeValueByKey key =
      if node.btnodeFlag LEAF_NODE then
        if other.keyBuff (node.rank key) = key then other.valueBuff (node.rank key) else (0, 0)
      else (0, 0) := by
  have hflag : other.btnodeFlag LEAF_NODE = node.btnodeFlag LEAF_NODE := by
    rw [btnodeFlag, btnodeFlag, h.flag]
  rw [btnodeChildByKey, btnodeValueByKey, hflag, h.fgoe_eq hasc]
  refine ⟨rfl, ?_⟩
  cases node.btnodeFlag LEAF_NODE <;> simp

lemma SameLive.refl (node : BTNode L) : SameLive node node where
  flag := rfl
  keyBuffSize := rfl
  buffSize := rfl
  keys _ _ := rfl
  children _ _ _ := rfl
  values _ _ _ := rfl

/-- The compared word is the same when it is live. -/
lemma SameLive.keyBuff_rank (h : SameLive node other) (hlive : node.ComparesLive key) :
    other.keyBuff (node.rank key) = node.keyBuff (node.rank key) := by
  rcases hlive with hlt | ⟨hfull, hpos⟩
  · exact h.keys _ hlt
  · rcases Nat.lt_or_eq_of_le (node.rank_le key) with hlt | heq
    · exact h.keys _ hlt
    · rw [heq, hfull]
      cases hleaf : node.btnodeFlag LEAF_NODE with
      | false => exact h.children hleaf 0 hpos
      | true => exact congrArg Prod.fst (h.values hleaf 0 hpos)

lemma sameLookups_of_settled (hasc : Ascending node.keyBuff node.keyBuffSize)
    (hsettled : node.Settled key) (h : SameLive node other) : SameLookups node other key := by
  obtain ⟨hchild, hvalue⟩ := h.lookups_eq hasc key
  obtain ⟨hchild', hvalue'⟩ := (SameLive.refl node).lookups_eq hasc key
  rw [SameLookups, hchild, hvalue, hchild', hvalue']
  unfold Settled at hsettled
  cases hleaf : node.btnodeFlag LEAF_NODE with
  | true =>
    simp only [hleaf, if_true] at hsettled ⊢
    refine ⟨trivial, ?_⟩
    split_ifs at hsettled with hlive
    · rw [h.keyBuff_rank hlive]
      split_ifs with hkey
      · exact h.values hleaf _ (hsettled hkey)
      · rfl
    · -- whichever way the dead word sends it, the lookup ends with zeros
      obtain ⟨hlt, hzero⟩ := hsettled
      rw [rank_eq_of_not_comparesLive hlive, h.values hleaf _ hlt, hzero, ite_self, ite_self]
  | false =>
    simp only [hleaf, Bool.false_eq_true, if_false] at hsettled ⊢
    refine ⟨?_, trivial⟩
    split_ifs at hsettled with hlive hkey
    · rw [h.keyBuff_rank hlive, if_pos hkey, if_pos hkey]
      exact h.children hleaf _ hsettled
    · rw [h.keyBuff_rank hlive, if_neg hkey, if_neg hkey]
      exact h.children hleaf _ hsettled
    · obtain ⟨hlt, heq⟩ := hsettled
      rw [rank_eq_of_not_comparesLive hlive, h.children hleaf _ hlt,
        h.children hleaf _ (Nat.lt_of_succ_lt hlt), heq, ite_self, ite_self]

/-! ### Nodes with another dead word -/

def withWord (node : BTNode L) (w : Nat) (x : Word) : BTNode L :=
  { node with mem := Function.update node.mem w x }

/-- A word that no live slot has. -/
structure DeadWord (node : BTNode L) (w : Nat) : Prop where
  key : node.keyBuffSize ≤ w
  child : node.btnodeFlag LEAF_NODE = false → w < 2 * L ∨ 2 * L + node.buffSize ≤ w
  value : node.btnodeFlag LEAF_NODE = true → w < 2 * L ∨ 2 * L + 2 * node.buffSize ≤ w

lemma DeadWord.sameLive {w : Nat} {x : Word} (h : DeadWord node w) (hother : SameLive node other) :
    SameLive node (other.withWord w x) where
  flag := hother.flag
  keyBuffSize := hother.keyBuffSize
  buffSize := hother.buffSize
  keys i hi := by
    rw [← hother.keys i hi]
    exact Function.update_of_ne (hi.trans_le h.key).ne _ _
  children hleaf i hi := by
    rw [← hother.children hleaf i hi]
    refine Function.update_of_ne ?_ _ _
    have hw := h.child hleaf
    omega
  values hleaf i hi := by
    rw [← hother.values hleaf i hi]
    have hw := h.value hleaf
    refine Prod.ext (Function.update_of_ne ?_ _ _) (Function.update_of_ne ?_ _ _)
    · omega
    · omega

lemma withWord_keyBuff (node : BTNode L) (w : Nat) (x : Word) (i : Nat) :
    (node.withWord w x).keyBuff i = if i = w then x else node.keyBuff i :=
  Function.update_apply node.mem w x i

lemma withWord_nodeBuff (node : BTNode L) (w : Nat) (x : Word) (i : Nat) :
    (node.withWord w x).nodeBuff i = if 2 * L + i = w then x else node.nodeBuff i :=
  Function.update_apply node.mem w x (2 * L + i)

lemma withWord_valueBuff_fst (node : BTNode L) (w : Nat) (x : Word) (i : Nat) :
    ((node.withWord w x).valueBuff i).1 = if 2 * L + 2 * i = w then x else (node.valueBuff i).1 :=
  Function.update_apply node.mem w x (2 * L + 2 * i)

lemma withWord_valueBuff_of_lt {w : Nat} (node : BTNode L) (x : Word) {i : Nat}
    (h : w < 2 * L + 2 * i) : (node.withWord w x).valueBuff i = node.valueBuff i :=
  Prod.ext (Function.update_of_ne h.ne' _ _)
    (Function.update_of_ne (h.trans (Nat.lt_succ_self _)).ne' _ _)

lemma deadWord_behind (hle : node.keyBuffSize ≤ 2 * L) (h : ¬node.ComparesLive key) :
    DeadWord node node.keyBuffSize := by
  have hunion : node.keyBuffSize < 2 * L ∨ node.buffSize = 0 := by
    by_contra hno
    obtain ⟨hfull, hpos⟩ := not_or.1 hno
    exact h (.inr ⟨le_antisymm hle (not_lt.1 hfull), Nat.pos_of_ne_zero hpos⟩)
  refine ⟨le_rfl, fun _ => ?_, fun _ => ?_⟩
  · omega
  · omega

section Needed

variable (hasc : Ascending node.keyBuff node.keyBuffSize) (hpos : 0 < node.keyBuffSize)
  (hle : node.keyBuffSize ≤ 2 * L) (h : ∀ other, SameLive node other → SameLookups node other key)

include hasc hpos hle h

lemma settled_leaf (hleaf : node.btnodeFlag LEAF_NODE = true) : node.Settled key := by
  have hvalue : ∀ other, SameLive node other →
      (if other.keyBuff (node.rank key) = key then other.valueBuff (node.rank key) else (0, 0)) =
        node.btnodeValueByKey key := by
    intro other hother
    rw [← (h other hother).2, (hother.lookups_eq hasc key).2, if_pos hleaf]
  have hinner : ¬node.btnodeFlag LEAF_NODE = false := by
    rw [hleaf]
    exact Bool.noConfusion
  unfold Settled
  rw [if_pos hleaf]
  split_ifs with hlive
  · intro hkey
    by_contra hge
    have hdead : DeadWord node (2 * L + 2 * node.rank key) :=
      ⟨by omega, fun hf => absurd hf hinner, fun _ => .inr (by omega)⟩
    obtain ⟨x, hx⟩ := exists_ne (node.valueBuff (node.rank key)).1
    have hother := hdead.sameLive (x := x) (SameLive.refl node)
    have hsame := (hvalue _ hother).trans (hvalue _ (SameLive.refl node)).symm
    rw [hother.keyBuff_rank hlive, if_pos hkey, if_pos hkey] at hsame
    have hfst := congrArg Prod.fst hsame
    rw [withWord_valueBuff_fst, if_pos rfl] at hfst
    exact hx hfst
  · rw [rank_eq_of_not_comparesLive hlive] at hvalue
    have hdead := deadWord_behind hle hlive
    obtain ⟨x, hx⟩ := exists_ne key
    -- one node has the key behind the live ones, another has not
    have hmiss := hvalue _ (hdead.sameLive (x := x) (SameLive.refl node))
    rw [withWord_keyBuff, if_pos rfl, if_neg hx] at hmiss
    have hhit := hvalue _ (hdead.sameLive (x := key) (SameLive.refl node))
    rw [withWord_keyBuff, if_pos rfl, if_pos rfl, withWord_valueBuff_of_lt _ _ (by omega),
      ← hmiss] at hhit
    refine ⟨?_, hhit⟩
    by_contra hge
    have hslot : DeadWord node (2 * L + 2 * node.keyBuffSize) :=
      ⟨by omega, fun hf => absurd hf hinner, fun _ => .inr (by omega)⟩
    have hfound : ((node.withWord node.keyBuffSize key).withWord
        (2 * L + 2 * node.keyBuffSize) 1).keyBuff node.keyBuffSize = key := by
      rw [withWord_keyBuff, if_neg (by omega), withWord_keyBuff, if_pos rfl]
    have hother := hslot.sameLive (x := 1) (hdead.sameLive (x := key) (SameLive.refl node))
    have hone := hvalue _ hother
    rw [if_pos hfound, ← hmiss] at hone
    have hfst := congrArg Prod.fst hone
    rw [withWord_valueBuff_fst, if_pos rfl] at hfst
    exact absurd hfst Nat.one_ne_zero

lemma settled_inner (hleaf : node.btnodeFlag LEAF_NODE = false) : node.Settled key := by
  have hinner : ¬node.btnodeFlag LEAF_NODE = true := by
    rw [hleaf]
    exact Bool.noConfusion
  have hchild : ∀ other, SameLive node other →
      (if other.keyBuff (node.rank key) = key then other.nodeBuff (node.rank key + 1)
        else other.nodeBuff (node.rank key)) = node.btnodeChildByKey key := by
    intro other hother
    rw [← (h other hother).1, (hother.lookups_eq hasc key).1, if_neg hinner]
  unfold Settled
  rw [if_neg hinner]
  split_ifs with hlive hkey
  · by_contra hge
    have hdead : DeadWord node (2 * L + (node.rank key + 1)) :=
      ⟨by omega, fun _ => .inr (by omega), fun hf => absurd hf hinner⟩
    obtain ⟨x, hx⟩ := exists_ne (node.nodeBuff (node.rank key + 1))
    have hother := hdead.sameLive (x := x) (SameLive.refl node)
    have hsame := (hchild _ hother).trans (hchild _ (SameLive.refl node)).symm
    rw [hother.keyBuff_rank hlive, if_pos hkey, if_pos hkey, withWord_nodeBuff, if_pos rfl] at hsame
    exact hx hsame
  · by_contra hge
    have hdead : DeadWord node (2 * L + node.rank key) :=
      ⟨by omega, fun _ => .inr (by omega), fun hf => absurd hf hinner⟩
    obtain ⟨x, hx⟩ := exists_ne (node.nodeBuff (node.rank key))
    have hother := hdead.sameLive (x := x) (SameLive.refl node)
    have hsame := (hchild _ hother).trans (hchild _ (SameLive.refl node)).symm
    rw [hother.keyBuff_rank hlive, if_neg hkey, if_neg hkey, withWord_nodeBuff, if_pos rfl] at hsame
    exact hx hsame
  · rw [rank_eq_of_not_comparesLive hlive] at hchild
    have hdead := deadWord_behind hle hlive
    obtain ⟨x, hx⟩ := exists_ne key
    -- one node has the key behind the live ones, another has not
    have hmiss := hchild _ (hdead.sameLive (x := x) (SameLive.refl node))
    rw [withWord_keyBuff, if_pos rfl, if_neg hx, withWord_nodeBuff, if_neg (by omega)] at hmiss
    have hhit := hchild _ (hdead.sameLive (x := key) (SameLive.refl node))
    rw [withWord_keyBuff, if_pos rfl, if_pos rfl, withWord_nodeBuff, if_neg (by omega),
      ← hmiss] at hhit
    refine ⟨?_, hhit⟩
    by_contra hge
    have hslot : DeadWord node (2 * L + (node.keyBuffSize + 1)) :=
      ⟨by omega, fun _ => .inr (by omega), fun hf => absurd hf hinner⟩
    obtain ⟨y, hy⟩ := exists_ne (node.nodeBuff node.keyBuffSize)
    have hfound : ((node.withWord node.keyBuffSize key).withWord
        (2 * L + (node.keyBuffSize + 1)) y).keyBuff node.keyBuffSize = key := by
      rw [withWord_keyBuff, if_neg (by omega), withWord_keyBuff, if_pos rfl]
    have hother := hslot.sameLive (x := y) (hdead.sameLive (x := key) (SameLive.refl node))
    have hsame := hchild _ hother
    rw [if_pos hfound, withWord_nodeBuff, if_pos rfl, ← hmiss] at hsame
    exact hy hsame

end Needed

/-- Exactly the settled keys are looked up the same in all nodes with the same live slots. -/
theorem lookups_ignore_dead {L : Nat} (node : BTNode L) (hpos : 1 ≤ node.keyBuffSize)
    (hle : node.keyBuffSize ≤ 2 * L) (hasc : Ascending node.keyBuff node.keyBuffSize) (key : Key) :
    (∀ other, SameLive node other → SameLookups node other key) ↔ node.Settled key := by
  constructor
  · intro h
    cases hleaf : node.btnodeFlag LEAF_NODE with
    | true => exact settled_leaf hasc hpos hle h hleaf
    | false => exact settled_inner hasc hpos hle h hleaf
  · intro hsettled other h
    exact sameLookups_of_settled hasc hsettled h

/-- A new root over two leaves, in the memory that `malloc` returned. -/
def rootOver (fresh : Memory) : BTNode 2 := newRoot 380 30 100 240 fresh

lemma rootOver_ascending (fresh : Memory) :
    Ascending (rootOver fresh).keyBuff (rootOver fresh).keyBuffSize := by
  intro i j hij hj
  obtain rfl : j = 0 := Nat.lt_one_iff.1 hj
  exact absurd hij (Nat.not_lt_zero i)

theorem thirty_ignores_dead :
    (∀ other, SameLive (rootOver fun _ => 0) other → SameLookups (rootOver fun _ => 0) other 30) ↔
      (rootOver fun _ => 0).Settled 30 :=
  lookups_ignore_dead (rootOver fun _ => 0) (by decide) (by decide) (rootOver_ascending _) 30

/-- In one memory the word behind the one live key is `50`, in the other it is not. -/
theorem fifty_differs : SameLive (rootOver fun _ => 0) (rootOver fun i => if i = 1 then 50 else 7) ∧
    Ascending (rootOver fun _ => 0).keyBuff (rootOver fun _ => 0).keyBuffSize ∧
    (rootOver fun _ => 0).keyBuffSize = 1 ∧ (rootOver fun _ => 0).buffSize = 2 ∧
    (rootOver fun _ => 0).btnodeChildByKey 50 = 240 ∧
    (rootOver fun i => if i = 1 then 50 else 7).btnodeChildByKey 50 = 7 := by
  refine ⟨⟨rfl, rfl, rfl, ?_, ?_, ?_⟩, rootOver_ascending _, rfl, rfl, by decide,
    by decide⟩
  · intro i hi
    obtain rfl : i = 0 := Nat.lt_one_iff.1 hi
    rfl
  · decide
  · decide

/-- In a node with its counts in order the settled keys are those not behind the live ones, and in
a full node those that are not the first word of the union. -/
lemma settled_iff (hpos : 1 ≤ node.keyBuffSize) (hbuff : node.buffSize =
    if node.btnodeFlag LEAF_NODE then node.keyBuffSize else node.keyBuffSize + 1) (key : Key) :
    node.Settled key ↔ node.rank key < node.keyBuffSize ∨
      node.keyBuffSize = 2 * L ∧ node.keyBuff (2 * L) ≠ key := by
  have hcounts : 0 < node.buffSize ∧ node.keyBuffSize ≤ node.buffSize ∧
      (node.btnodeFlag LEAF_NODE = true → node.buffSize = node.keyBuffSize) ∧
      (node.btnodeFlag LEAF_NODE = false → node.buffSize = node.keyBuffSize + 1) := by
    cases hleaf : node.btnodeFlag LEAF_NODE <;> simp [hleaf] at hbuff <;> simp <;> omega
  obtain ⟨hbuffpos, hge, hleafsize, hinnersize⟩ := hcounts
  unfold Settled
  by_cases hlt : node.rank key < node.keyBuffSize
  · have hlive : node.ComparesLive key := .inl hlt
    simp only [hlive, hlt, if_true, true_or, iff_true]
    cases hleaf : node.btnodeFlag LEAF_NODE with
    | true => exact fun _ => hlt.trans_le hge
    | false =>
      have hsize := hinnersize hleaf
      simp only [Bool.false_eq_true, if_false]
      split_ifs <;> omega
  · have hbehind : node.rank key = node.keyBuffSize := le_antisymm (node.rank_le key) (not_lt.1 hlt)
    by_cases hfull : node.keyBuffSize = 2 * L
    · have hlive : node.ComparesLive key := .inr ⟨hfull, hbuffpos⟩
      simp only [hlive, if_true, hbehind, ← hfull, lt_irrefl, false_or, true_and]
      cases hleaf : node.btnodeFlag LEAF_NODE with
      | true =>
        have hsize := hleafsize hleaf
        simp [hsize]
      | false =>
        have hsize := hinnersize hleaf
        simp only [Bool.false_eq_true, if_false]
        split_ifs with hkey <;> simp [hsize, hkey]
    · have hlive : ¬node.ComparesLive key := by
        rintro (hlt' | ⟨hfull', -⟩)
        · exact hlt hlt'
        · exact hfull hfull'
      simp only [hlive, hlt, hfull, if_false, false_and, or_false, iff_false]
      cases hleaf : node.btnodeFlag LEAF_NODE with
      | true => simp [hleafsize hleaf]
      | false => simp [hinnersize hleaf]

end TiPI.BLinkTree.BTNode
