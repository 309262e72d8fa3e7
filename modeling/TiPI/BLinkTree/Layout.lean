import TiPI.BLinkTree.NodeOps
import TiPI.Lib.BLinkFrame

/-!
# Nodes laid out in memory

`Layout T o node` says that `node` is what the tree `T` says of the node at offset `o`. The
operations of `node.c` carry a layout over to the tree the library's operations make.
-/

namespace TiPI.BLinkTree

abbrev Tree := BLink Key Offset Value

variable {L : Nat} {T T' : Tree} {o : Offset} {node : BTNode L} {key : Key} {val : Value}

structure Layout (T : Tree) (o : Offset) (node : BTNode L) : Prop where
  self : node.self = o
  right : node.right = (T.next o).getD INVALID_OFFSET
  high : ∀ r, T.next o = some r → node.highKey = T.low r
  leaf : node.btnodeFlag LEAF_NODE = true ↔ T.level o = 0
  size_le : node.keyBuffSize ≤ 2 * L
  ascending : Ascending node.keyBuff node.keyBuffSize
  buffSize : node.buffSize = if T.level o = 0 then node.keyBuffSize else node.keyBuffSize + 1
  value : T.level o = 0 → ∀ k v, T.value o k = some v ↔
    ∃ i, i < node.keyBuffSize ∧ node.keyBuff i = k ∧ node.valueBuff i = v
  first : 0 < T.level o → node.nodeBuff 0 ∈ T.kids o ∧ T.low (node.nodeBuff 0) = T.low o
  sep : 0 < T.level o → ∀ i, i < node.keyBuffSize →
    node.nodeBuff (i + 1) ∈ T.kids o ∧ T.low (node.nodeBuff (i + 1)) = node.keyBuff i
  kid : 0 < T.level o → ∀ c ∈ T.kids o,
    c = node.nodeBuff 0 ∨ ∃ i, i < node.keyBuffSize ∧ c = node.nodeBuff (i + 1)
  front : 0 < T.level o → ∀ i, i < node.keyBuffSize → T.low o < node.keyBuff i

/-- The layout with the root flag. -/
structure IsNode (T : Tree) (o : Offset) (node : BTNode L) : Prop extends Layout T o node where
  root : node.btnodeFlag ROOT_NODE = true ↔ T.level o = T.top

namespace Layout

lemma congr (h : Layout T o node) (ha : T.AgreeAt T' o) : Layout T' o node where
  self := h.self
  right := by rw [ha.next, h.right]
  high r hr := by
    rw [ha.next] at hr
    rw [ha.next_low r hr, h.high r hr]
  leaf := by rw [ha.level, h.leaf]
  size_le := h.size_le
  ascending := h.ascending
  buffSize := by rw [ha.level, h.buffSize]
  value h0 := by
    rw [ha.level] at h0
    rw [ha.value]
    exact h.value h0
  first h0 := by
    rw [ha.level] at h0
    obtain ⟨hmem, hlow⟩ := h.first h0
    exact ⟨by rwa [ha.kids], by rw [ha.kids_low _ hmem, ha.low, hlow]⟩
  sep h0 i hi := by
    rw [ha.level] at h0
    obtain ⟨hmem, hlow⟩ := h.sep h0 i hi
    exact ⟨by rwa [ha.kids], by rw [ha.kids_low _ hmem, hlow]⟩
  kid h0 c hc := by
    rw [ha.level] at h0
    rw [ha.kids] at hc
    exact h.kid h0 c hc
  front h0 i hi := by
    rw [ha.level] at h0
    rw [ha.low]
    exact h.front h0 i hi

/-- A layout depends on the live slots alone. -/
lemma mem_congr (h : Layout T o node) {mem : Memory}
    (hkey : ∀ i, i < node.keyBuffSize → mem i = node.keyBuff i)
    (hval : T.level o = 0 → ∀ i, i < node.keyBuffSize →
      (mem (2 * L + 2 * i), mem (2 * L + 2 * i + 1)) = node.valueBuff i)
    (hkid : 0 < T.level o → ∀ i, i ≤ node.keyBuffSize → mem (2 * L + i) = node.nodeBuff i) :
    Layout T o ({ node with mem := mem } : BTNode L) where
  self := h.self
  right := h.right
  high := h.high
  leaf := h.leaf
  size_le := h.size_le
  ascending i j hij hj := by
    have := h.ascending i j hij hj
    rw [← hkey i (hij.trans hj), ← hkey j hj] at this
    exact this
  buffSize := h.buffSize
  value h0 k v := by
    rw [h.value h0]
    refine exists_congr fun i => and_congr_right fun hi => ?_
    rw [← hkey i hi, ← hval h0 i hi]
    rfl
  first h0 := by
    have := h.first h0
    rw [← hkid h0 0 (Nat.zero_le _)] at this
    exact this
  sep h0 i hi := by
    have := h.sep h0 i hi
    rw [← hkid h0 (i + 1) hi, ← hkey i hi] at this
    exact this
  kid h0 c hc := by
    rcases h.kid h0 c hc with rfl | ⟨i, hi, rfl⟩
    · exact .inl (hkid h0 0 (Nat.zero_le _)).symm
    · exact .inr ⟨i, hi, (hkid h0 (i + 1) hi).symm⟩
  front h0 i hi := by
    have := h.front h0 i hi
    rw [← hkey i hi] at this
    exact this

lemma right_eq (h : Layout T o node) {r : Offset} (hr : T.next o = some r) : node.right = r := by
  rw [h.right, hr]
  rfl

lemma right_eq_invalid (h : Layout T o node) (hr : T.next o = none) :
    node.right = INVALID_OFFSET := by
  rw [h.right, hr]
  rfl

/-- A key that does not send a thread to the right is covered. -/
lemma covers (h : Layout T o node) (hinv : T.next o ≠ some INVALID_OFFSET) {k : Key}
    (hlow : T.low o ≤ k) (hk : node.right = INVALID_OFFSET ∨ k < node.highKey) :
    T.Covers o k := by
  refine ⟨hlow, fun r hr => ?_⟩
  rcases hk with hk | hk
  · rw [h.right_eq hr] at hk
    exact absurd (hk ▸ hr) hinv
  · rwa [h.high r hr] at hk

/-- A node that sends threads to the right has a right neighbour. -/
lemma next_eq (h : Layout T o node) (hr : node.right ≠ INVALID_OFFSET) :
    T.next o = some node.right := by
  cases hnext : T.next o with
  | none => exact absurd (h.right_eq_invalid hnext) hr
  | some r => rw [h.right_eq hnext]

/-- The slot of the lower bound holds a key exactly if the leaf has it. -/
lemma hit_iff (h : Layout T o node) (h0 : T.level o = 0) :
    (node.fgoe key < node.keyBuffSize ∧ node.keyBuff (node.fgoe key) = key) ↔
      ∃ v, T.value o key = some v := by
  rw [(node.fgoe_lowerBound h.ascending key).hit_iff h.ascending]
  constructor
  · rintro ⟨i, hi, hk⟩
    exact ⟨_, (h.value h0 key _).2 ⟨i, hi, hk, rfl⟩⟩
  · rintro ⟨v, hv⟩
    obtain ⟨i, hi, hk, -⟩ := (h.value h0 key v).1 hv
    exact ⟨i, hi, hk⟩

/-- A child of an internal node starts at or below the key unless the key was found in the slot
behind the live ones. -/
lemma child (h : Layout T o node) (h0 : 0 < T.level o) (hlow : T.low o ≤ key)
    (hkids : ∀ c ∈ T.kids o, T.low o ≤ T.low c)
    (hdead : ¬(node.fgoe key = node.keyBuffSize ∧ node.keyBuff node.keyBuffSize = key)) :
    node.btnodeChildByKey key ∈ T.kids o ∧ T.low (node.btnodeChildByKey key) ≤ key ∧
      ∀ d ∈ T.kids o, T.low d ≤ key → T.low d ≤ T.low (node.btnodeChildByKey key) := by
  have hlb := node.fgoe_lowerBound h.ascending key
  have hleaf : node.btnodeFlag LEAF_NODE = false := by
    rw [← Bool.not_eq_true, h.leaf]
    omega
  obtain ⟨hfirst, hfirst_low⟩ := h.first h0
  unfold BTNode.btnodeChildByKey
  simp only [hleaf, Bool.false_eq_true, if_false]
  -- a kid that starts at or below the key stands in front of the lower bound or at it
  have hgreatest : ∀ c, T.low o ≤ T.low c →
      (∀ i, i < node.keyBuffSize → node.keyBuff i ≤ key → node.keyBuff i ≤ T.low c) →
      ∀ d ∈ T.kids o, T.low d ≤ key → T.low d ≤ T.low c := by
    intro c hc hall d hd hdk
    rcases h.kid h0 d hd with rfl | ⟨i, hi, rfl⟩
    · rwa [hfirst_low]
    · rw [(h.sep h0 i hi).2] at hdk ⊢
      exact hall i hi hdk
  generalize node.fgoe key = p at *
  by_cases hkey : node.keyBuff p = key
  · rw [if_pos hkey]
    have hp : p < node.keyBuffSize := by
      refine lt_of_le_of_ne hlb.le fun hp => hdead ⟨hp, ?_⟩
      rw [← hp, hkey]
    obtain ⟨hmem, hclow⟩ := h.sep h0 p hp
    rw [hkey] at hclow
    exact ⟨hmem, hclow.le, hgreatest _ (hclow ▸ hlow) fun i hi hle => hclow ▸ hle⟩
  · rw [if_neg hkey]
    have hbelow : ∀ i, i < node.keyBuffSize → node.keyBuff i ≤ key → i < p := by
      intro i hi hle
      by_contra hip
      refine hkey (le_antisymm ?_ (hlb.above p le_rfl (by omega)))
      exact (h.ascending.le (not_lt.1 hip) hi).trans hle
    cases p with
    | zero =>
      exact ⟨hfirst, hfirst_low.le.trans hlow, hgreatest _ hfirst_low.ge fun i hi hle =>
        absurd (hbelow i hi hle) (Nat.not_lt_zero i)⟩
    | succ p =>
      have hp : p < node.keyBuffSize := hlb.le
      obtain ⟨hmem, hclow⟩ := h.sep h0 p hp
      refine ⟨hmem, hclow ▸ (hlb.below p (Nat.lt_succ_self p)).le,
        hgreatest _ (hkids _ hmem) fun i hi hle => ?_⟩
      rw [hclow]
      exact h.ascending.le (Nat.le_of_lt_succ (hbelow i hi hle)) hp

/-! ### Values and children put in -/

lemma addKeyValue (h : Layout T o node) (h0 : T.level o = 0) (hsz : node.keyBuffSize < 2 * L) :
    Layout (T.put o key val) o (node.btnodeAddKeyValue key val) := by
  have hleaf := h.leaf.2 h0
  have hput : ∀ k v, (T.put o key val).value o k = some v ↔
      k = key ∧ v = val ∨ k ≠ key ∧ T.value o k = some v := by
    intro k v
    by_cases hk : k = key
    · simp [BLink.put, hk, eq_comm]
    · simp [BLink.put, hk]
  by_cases hold : ∃ i, i < node.keyBuffSize ∧ node.keyBuff i = key
  · obtain ⟨mem, p, heq, hp, hpkey, hkeys, hvals⟩ :=
      BTNode.addKeyValue_old h.ascending hsz hleaf hold val
    rw [heq]
    exact
      { h with
        ascending := fun i j hij hj => by
          have hij' := h.ascending i j hij hj
          rw [← hkeys i (hij.trans hj), ← hkeys j hj] at hij'
          exact hij'
        value := fun _ k v => by
          rw [hput, h.value h0]
          constructor
          · rintro (⟨rfl, rfl⟩ | ⟨hk, i, hi, rfl, rfl⟩)
            · exact ⟨p, hp, (hkeys p hp).trans hpkey, (hvals p hp).trans (if_pos rfl)⟩
            · refine ⟨i, hi, hkeys i hi, (hvals i hi).trans (if_neg ?_)⟩
              rintro rfl
              exact hk hpkey
          · rintro ⟨i, hi, hik, hiv⟩
            have hik : node.keyBuff i = k := (hkeys i hi).symm.trans hik
            have hiv := (hvals i hi).symm.trans hiv
            by_cases hip : i = p
            · subst hip
              exact .inl ⟨hik.symm.trans hpkey, hiv.symm.trans (if_pos rfl)⟩
            · rw [if_neg hip] at hiv
              refine .inr ⟨?_, i, hi, hik, hiv⟩
              rintro rfl
              exact hip (h.ascending.injective hi hp (hik.trans hpkey.symm))
        first := fun h0' => absurd h0 h0'.ne'
        sep := fun h0' => absurd h0 h0'.ne'
        kid := fun h0' => absurd h0 h0'.ne'
        front := fun h0' => absurd h0 h0'.ne' }
  · obtain ⟨mem, heq, hkeys, hvals⟩ := BTNode.addKeyValue_new h.ascending hsz hleaf hold val
    have hlb := node.fgoe_lowerBound h.ascending key
    rw [heq]
    exact
      { h with
        size_le := hsz
        ascending := hkeys.ascending hlb h.ascending fun i hi hk => hold ⟨i, hi, hk⟩
        buffSize := by
          have := h.buffSize
          rw [if_pos h0] at this
          exact (congrArg (· + 1) this).trans (if_pos h0).symm
        value := fun _ k v => by
          have hpairs : InsertedAt (fun i => (node.keyBuff i, node.valueBuff i))
              (fun i => (mem i, (mem (2 * L + 2 * i), mem (2 * L + 2 * i + 1))))
              node.keyBuffSize (node.fgoe key) (key, val) := hkeys.prod hvals
          have hmem := hpairs.exists_iff hlb.le fun x => x.1 = k ∧ x.2 = v
          rw [hput, h.value h0]
          refine Iff.trans ?_ hmem.symm
          constructor
          · rintro (⟨rfl, rfl⟩ | ⟨-, hi⟩)
            · exact .inl ⟨rfl, rfl⟩
            · exact .inr hi
          · rintro (⟨rfl, rfl⟩ | ⟨i, hi, rfl, rfl⟩)
            · exact .inl ⟨rfl, rfl⟩
            · exact .inr ⟨fun hk => hold ⟨i, hi, hk⟩, i, hi, rfl, rfl⟩
        first := fun h0' => absurd h0 h0'.ne'
        sep := fun h0' => absurd h0 h0'.ne'
        kid := fun h0' => absurd h0 h0'.ne'
        front := fun h0' => absurd h0 h0'.ne' }

lemma addKeyChild (h : Layout T o node) (h0 : 0 < T.level o) (hsz : node.keyBuffSize < 2 * L)
    {c : Offset} (hle : T.low o ≤ T.low c) (hnew : ∀ d ∈ T.kids o, T.low d ≠ T.low c) :
    Layout (T.addKid o c) o (node.btnodeAddKeyChild (T.low c) c) := by
  obtain ⟨mem, heq, hkeys, hfirst, hkids⟩ := BTNode.addKeyChild_new h.ascending hsz (T.low c) c
  have hlb := node.fgoe_lowerBound h.ascending (T.low c)
  have hpairs := hkids.prod hkeys
  rw [heq]
  exact
    { h with
      size_le := hsz
      ascending := hkeys.ascending hlb h.ascending fun i hi hk =>
        hnew _ (h.sep h0 i hi).1 ((h.sep h0 i hi).2.trans hk)
      buffSize := by
        have := h.buffSize
        rw [if_neg h0.ne'] at this
        exact (congrArg (· + 1) this).trans (if_neg h0.ne').symm
      value := fun h0' => absurd h0' h0.ne'
      first := fun _ => by
        obtain ⟨hmem, hlow⟩ := h.first h0
        rw [← hfirst] at hmem hlow
        exact ⟨BLink.mem_addKid.2 (.inr hmem), hlow⟩
      sep := fun _ => by
        have hall := (hpairs.forall_iff hlb.le
          fun x => x.1 ∈ (T.addKid o c).kids o ∧ T.low x.1 = x.2).2
        refine hall ⟨⟨BLink.mem_addKid.2 (.inl ⟨rfl, rfl⟩), rfl⟩, fun i hi => ?_⟩
        obtain ⟨hmem, hlow⟩ := h.sep h0 i hi
        exact ⟨BLink.mem_addKid.2 (.inr hmem), hlow⟩
      kid := fun _ d hd => by
        have hex := hkids.exists_iff hlb.le fun x => d = x
        rcases BLink.mem_addKid.1 hd with ⟨-, rfl⟩ | hd
        · exact .inr (hex.2 (.inl rfl))
        · rcases h.kid h0 d hd with rfl | hi
          · exact .inl hfirst.symm
          · exact .inr (hex.2 (.inr hi))
      front := fun _ => by
        obtain ⟨hmem, hlow⟩ := h.first h0
        have hlt : T.low o < T.low c := lt_of_le_of_ne hle (hlow ▸ hnew _ hmem)
        exact (hkeys.forall_iff hlb.le fun x => T.low o < x).2 ⟨hlt, h.front h0⟩ }

/-! ### Halves -/

section Split

variable {orphans : Set Offset} {r : Offset}

/-- The key a full node is split at. -/
lemma mid (h : Layout T o node) (hT : T.Valid orphans) (ho : o ∈ T.nodes) (hL : 0 < L)
    (hsz : node.keyBuffSize = 2 * L) :
    T.Covers o (node.keyBuff L) ∧ T.low o < node.keyBuff L ∧
      (0 < T.level o → ∃ c ∈ T.kids o, T.low c = node.keyBuff L) := by
  have hcov : ∀ i, i < node.keyBuffSize → T.Covers o (node.keyBuff i) := by
    intro i hi
    by_cases h0 : T.level o = 0
    · exact hT.value_covered o ho _ _ ((h.value h0 _ _).2 ⟨i, hi, rfl, rfl⟩)
    · obtain ⟨hmem, hlow⟩ := h.sep (Nat.pos_of_ne_zero h0) i hi
      exact hlow ▸ hT.kid_covered o ho _ hmem
  refine ⟨hcov L (by omega), ?_, fun h0 => ⟨_, h.sep h0 L (by omega)⟩⟩
  exact (hcov 0 (by omega)).1.trans_lt (h.ascending 0 L hL (by omega))

lemma split_leaf_left (h : Layout T o node) (ho : o ∈ T.nodes) (hr : r ∉ T.nodes)
    (hL : 0 < L) (h0 : T.level o = 0) (hsz : node.keyBuffSize = 2 * L)
    (fresh : Memory) : Layout (T.splitAt o r (node.keyBuff L)) o (node.btnodeSplit r fresh).1 := by
  obtain ⟨mem, heq, -⟩ := BTNode.split_leaf hsz (h.leaf.2 h0) r fresh
  have hLsz : L < node.keyBuffSize := by omega
  have hlevel := BLink.splitAt_level (a := o) (h := node.keyBuff L) hr ho
  rw [heq]
  exact
    { self := h.self
      right := by rw [BLink.splitAt_next_self]; rfl
      high := fun b hb => by
        rw [BLink.splitAt_next_self, Option.some.injEq] at hb
        rw [← hb, BLink.splitAt_low_right]
      leaf := by
        rw [hlevel, BTNode.btnodeFlag_leaf rfl, h.leaf]
      size_le := by
        simp only
        omega
      ascending := fun i j hij hj => h.ascending i j hij (hj.trans hLsz)
      buffSize := by rw [hlevel, if_pos h0]
      value := fun _ k v => by
        rw [BLink.splitAt_value_self, Option.ite_none_right_eq_some, h.value h0]
        refine Iff.trans ?_ (h.ascending.exists_take hLsz _).symm
        constructor
        · rintro ⟨hk, i, hi, rfl, rfl⟩
          exact ⟨i, hi, hk, rfl, rfl⟩
        · rintro ⟨i, hi, hk, rfl, rfl⟩
          exact ⟨hk, i, hi, rfl, rfl⟩
      first := fun h0' => absurd h0 (hlevel ▸ h0').ne'
      sep := fun h0' => absurd h0 (hlevel ▸ h0').ne'
      kid := fun h0' => absurd h0 (hlevel ▸ h0').ne'
      front := fun h0' => absurd h0 (hlevel ▸ h0').ne' }

lemma split_leaf_right (h : Layout T o node) (hT : T.Valid orphans) (ho : o ∈ T.nodes)
    (hr : r ∉ T.nodes) (hL : 0 < L) (h0 : T.level o = 0) (hsz : node.keyBuffSize = 2 * L)
    (fresh : Memory) : Layout (T.splitAt o r (node.keyBuff L)) r (node.btnodeSplit r fresh).2 := by
  obtain ⟨mem, heq, hkeys, hvals⟩ := BTNode.split_leaf hsz (h.leaf.2 h0) r fresh
  have hro : r ≠ o := (ne_of_mem_of_not_mem ho hr).symm
  have hLsz : L < node.keyBuffSize := by omega
  have hlevel' := BLink.splitAt_level_right (T := T) (a := o) (r := r) (h := node.keyBuff L)
  rw [heq]
  exact
    { self := rfl
      right := by rw [BLink.splitAt_next_right hro, h.right]
      high := fun b hb => by
        rw [BLink.splitAt_next_right hro] at hb
        rw [BLink.splitAt_low hr (hT.next_mem o ho b hb), h.high b hb]
      leaf := by rw [hlevel', BTNode.btnodeFlag_leaf rfl, h.leaf]
      size_le := by
        simp only
        omega
      ascending := fun i j hij hj => by
        have hij' := h.ascending (L + i) (L + j) (by omega) (by simp only at hj; omega)
        rw [← hkeys i (hij.trans hj), ← hkeys j hj] at hij'
        exact hij'
      buffSize := by rw [hlevel', if_pos h0]
      value := fun _ k v => by
        have hdrop := h.ascending.exists_drop hLsz
          fun i => node.keyBuff i = k ∧ node.valueBuff i = v
        rw [show node.keyBuffSize - L = L by omega] at hdrop
        rw [BLink.splitAt_value_right hro, Option.ite_none_right_eq_some, h.value h0]
        constructor
        · rintro ⟨hk, i, hi, rfl, rfl⟩
          obtain ⟨j, hj, hkey, hval⟩ := hdrop.2 ⟨i, hi, hk, rfl, rfl⟩
          exact ⟨j, hj, (hkeys j hj).trans hkey, (hvals j hj).trans hval⟩
        · rintro ⟨j, hj, rfl, rfl⟩
          obtain ⟨i, hi, hk, hkey, hval⟩ :=
            hdrop.1 ⟨j, hj, (hkeys j hj).symm, (hvals j hj).symm⟩
          exact ⟨hkey ▸ hk, i, hi, hkey, hval⟩
      first := fun h0' => absurd h0 (hlevel' ▸ h0').ne'
      sep := fun h0' => absurd h0 (hlevel' ▸ h0').ne'
      kid := fun h0' => absurd h0 (hlevel' ▸ h0').ne'
      front := fun h0' => absurd h0 (hlevel' ▸ h0').ne' }

lemma split_inner_left (h : Layout T o node) (hT : T.Valid orphans) (ho : o ∈ T.nodes)
    (hr : r ∉ T.nodes) (h2 : 2 ≤ L) (h0 : 0 < T.level o)
    (hsz : node.keyBuffSize = 2 * L) (fresh : Memory) :
    Layout (T.splitAt o r (node.keyBuff L)) o (node.btnodeSplit r fresh).1 := by
  have hleaf : node.btnodeFlag LEAF_NODE = false := by
    rw [← Bool.not_eq_true, h.leaf]
    exact h0.ne'
  obtain ⟨mem, heq, -⟩ := BTNode.split_inner h2 hsz hleaf r fresh
  have hLsz : L < node.keyBuffSize := by omega
  have hlevel := BLink.splitAt_level (a := o) (h := node.keyBuff L) hr ho
  obtain ⟨-, hlow, -⟩ := h.mid hT ho (by omega) hsz
  obtain ⟨hfirst, hfirst_low⟩ := h.first h0
  have hlowT : ∀ c ∈ T.kids o, (T.splitAt o r (node.keyBuff L)).low c = T.low c :=
    fun c hc => BLink.splitAt_low hr (hT.kid_mem o ho c hc)
  rw [heq]
  exact
    { self := h.self
      right := by rw [BLink.splitAt_next_self]; rfl
      high := fun b hb => by
        rw [BLink.splitAt_next_self, Option.some.injEq] at hb
        rw [← hb, BLink.splitAt_low_right]
      leaf := by rw [hlevel, BTNode.btnodeFlag_leaf rfl, h.leaf]
      size_le := by
        simp only
        omega
      ascending := fun i j hij hj => h.ascending i j hij (hj.trans hLsz)
      buffSize := by rw [hlevel, if_neg h0.ne']
      value := fun h0' => absurd (hlevel.symm.trans h0') h0.ne'
      first := fun _ => by
        rw [BLink.splitAt_kids_self, BLink.splitAt_low hr ho]
        exact ⟨⟨hfirst, hfirst_low.trans_lt hlow⟩, (hlowT _ hfirst).trans hfirst_low⟩
      sep := fun _ i hi => by
        obtain ⟨hmem, hi_low⟩ := h.sep h0 i (hi.trans hLsz)
        rw [BLink.splitAt_kids_self]
        exact ⟨⟨hmem, hi_low.trans_lt (h.ascending i L hi hLsz)⟩, (hlowT _ hmem).trans hi_low⟩
      kid := fun _ c hc => by
        rw [BLink.splitAt_kids_self] at hc
        rcases h.kid h0 c hc.1 with rfl | ⟨i, hi, rfl⟩
        · exact .inl rfl
        · have hlt := hc.2
          rw [(h.sep h0 i hi).2, h.ascending.lt_iff hi hLsz] at hlt
          exact .inr ⟨i, hlt, rfl⟩
      front := fun _ i hi => by
        rw [BLink.splitAt_low hr ho]
        exact h.front h0 i (hi.trans hLsz) }

lemma split_inner_right (h : Layout T o node) (hT : T.Valid orphans) (ho : o ∈ T.nodes)
    (hr : r ∉ T.nodes) (hL : L ≤ 8) (h2 : 2 ≤ L) (h0 : 0 < T.level o)
    (hsz : node.keyBuffSize = 2 * L) (fresh : Memory) :
    Layout (T.splitAt o r (node.keyBuff L)) r (node.btnodeSplit r fresh).2 := by
  have hleaf : node.btnodeFlag LEAF_NODE = false := by
    rw [← Bool.not_eq_true, h.leaf]
    exact h0.ne'
  obtain ⟨mem, heq, hkeys, hcopied, -⟩ := BTNode.split_inner h2 hsz hleaf r fresh
  have hnodes : ∀ i, i < L → mem (2 * L + i) = node.nodeBuff (L + 1 + i) :=
    fun i hi => hcopied i (hi.trans_le hL)
  have hro : r ≠ o := (ne_of_mem_of_not_mem ho hr).symm
  have hLsz : L < node.keyBuffSize := by omega
  have hlevel' := BLink.splitAt_level_right (T := T) (a := o) (r := r) (h := node.keyBuff L)
  obtain ⟨-, hlow, -⟩ := h.mid hT ho (by omega) hsz
  have hfirst_low := (h.first h0).2
  have hlowT : ∀ c ∈ T.kids o, (T.splitAt o r (node.keyBuff L)).low c = T.low c :=
    fun c hc => BLink.splitAt_low hr (hT.kid_mem o ho c hc)
  rw [heq]
  exact
    { self := rfl
      right := by rw [BLink.splitAt_next_right hro, h.right]
      high := fun b hb => by
        rw [BLink.splitAt_next_right hro] at hb
        rw [BLink.splitAt_low hr (hT.next_mem o ho b hb), h.high b hb]
      leaf := by rw [hlevel', BTNode.btnodeFlag_leaf rfl, h.leaf]
      size_le := by
        simp only
        omega
      ascending := fun i j hij hj => by
        have hij' := h.ascending (L + 1 + i) (L + 1 + j) (by omega) (by simp only at hj; omega)
        rw [← hkeys i (hij.trans hj), ← hkeys j hj] at hij'
        exact hij'
      buffSize := by
        rw [hlevel', if_neg h0.ne']
        simp only
        omega
      value := fun h0' => absurd (hlevel'.symm.trans h0') h0.ne'
      first := fun _ => by
        obtain ⟨hmem, hL_low⟩ := h.sep h0 L hLsz
        have hnode := hnodes 0 (by omega)
        rw [BLink.splitAt_kids_right hro, BLink.splitAt_low_right]
        rw [← show mem (2 * L + 0) = node.nodeBuff (L + 1) from hnode] at hmem hL_low
        exact ⟨⟨hmem, hL_low.ge⟩, (hlowT _ hmem).trans hL_low⟩
      sep := fun _ i hi => by
        obtain ⟨hmem, hi_low⟩ := h.sep h0 (L + 1 + i) (by simp only at hi; omega)
        have hnode := hnodes (i + 1) (by simp only at hi; omega)
        have hge := (h.ascending L (L + 1 + i) (by omega) (by simp only at hi; omega)).le
        rw [BLink.splitAt_kids_right hro]
        rw [← hi_low] at hge
        rw [← hkeys i hi] at hi_low
        rw [← show mem (2 * L + (i + 1)) = node.nodeBuff (L + 1 + i + 1) from hnode]
          at hmem hi_low hge
        exact ⟨⟨hmem, hge⟩, (hlowT _ hmem).trans hi_low⟩
      kid := fun _ c hc => by
        rw [BLink.splitAt_kids_right hro] at hc
        rcases h.kid h0 c hc.1 with rfl | ⟨i, hi, rfl⟩
        · exact absurd (hc.2.trans hfirst_low.le) (not_le.2 hlow)
        · have hle := hc.2
          rw [(h.sep h0 i hi).2] at hle
          have hLi : L ≤ i := by
            by_contra hlt
            exact absurd (h.ascending i L (by omega) hLsz) (not_lt.2 hle)
          rcases Nat.lt_or_eq_of_le hLi with hlt | rfl
          · obtain ⟨j, rfl⟩ : ∃ j, i = L + 1 + j := ⟨i - (L + 1), by omega⟩
            exact .inr ⟨j, by simp only; omega, (hnodes (j + 1) (by omega)).symm⟩
          · exact .inl (hnodes 0 (by omega)).symm
      front := fun _ i hi => by
        have hlt := h.ascending L (L + 1 + i) (by omega) (by simp only at hi; omega)
        rw [← hkeys i hi] at hlt
        rw [BLink.splitAt_low_right]
        exact hlt }

end Split

/-- The node put above the halves of the old root. -/
lemma newRoot {a r : Offset} (hL : 0 < L) (hlevel : 0 < T.level o) (hnext : T.next o = none)
    (hkids : T.kids o = {a, r}) (hlow : T.low a = T.low o) (hlt : T.low o < T.low r)
    (fresh : Memory) :
    Layout T o (BTNode.newRoot o (T.low r) a r fresh : BTNode L) where
  self := rfl
  right := by rw [hnext]; rfl
  high b hb := absurd hb (by simp [hnext])
  leaf := by
    have : (BTNode.newRoot o (T.low r) a r fresh : BTNode L).btnodeFlag LEAF_NODE = false := by
      show (ROOT_NODE &&& LEAF_NODE != 0#32) = false
      decide
    rw [this]
    simp only [Bool.false_eq_true, false_iff]
    exact hlevel.ne'
  size_le := by
    show 1 ≤ 2 * L
    omega
  ascending i j hij hj := by
    have : j < 1 := hj
    omega
  buffSize := (if_neg hlevel.ne').symm
  value h0 := absurd h0 hlevel.ne'
  first _ := by
    have h0 : (BTNode.newRoot o (T.low r) a r fresh : BTNode L).nodeBuff 0 = a := by
      simp [BTNode.newRoot, BTNode.nodeBuff]
    rw [h0, hkids]
    exact ⟨.inl rfl, hlow⟩
  sep _ i hi := by
    obtain rfl : i = 0 := by
      have : i < 1 := hi
      omega
    have h1 : (BTNode.newRoot o (T.low r) a r fresh : BTNode L).nodeBuff (0 + 1) = r := by
      simp [BTNode.newRoot, BTNode.nodeBuff]
    have hk : (BTNode.newRoot o (T.low r) a r fresh : BTNode L).keyBuff 0 = T.low r := by
      simp (disch := omega) only [BTNode.newRoot, BTNode.keyBuff, Function.update_apply, if_neg,
        if_true]
    rw [h1, hk, hkids]
    exact ⟨.inr rfl, rfl⟩
  kid _ c hc := by
    rw [hkids] at hc
    rcases hc with rfl | rfl
    · left
      simp [BTNode.newRoot, BTNode.nodeBuff]
    · right
      exact ⟨0, Nat.zero_lt_one, by simp [BTNode.newRoot, BTNode.nodeBuff]⟩
  front _ i hi := by
    obtain rfl : i = 0 := by
      have : i < 1 := hi
      omega
    have hk : (BTNode.newRoot o (T.low r) a r fresh : BTNode L).keyBuff 0 = T.low r := by
      simp (disch := omega) only [BTNode.newRoot, BTNode.keyBuff, Function.update_apply, if_neg,
        if_true]
    rw [hk]
    exact hlt

end Layout

/-- What is read is what lies in the file. -/
lemma IsNode.readNode {file : ServiceFile L} {fresh : Memory} {current : BTNode L}
    (h : ∃ node, file.node o = some node ∧ IsNode T o node)
    (hread : file.readNode o fresh = some current) : IsNode T o current := by
  obtain ⟨node, hnode, hT⟩ := h
  obtain rfl : { node with mem := fun i => if i < blockWords L then node.mem i else fresh i } =
      current := by
    simpa [ServiceFile.readNode, hnode] using hread
  have hsz := hT.size_le
  have hblock : 6 * L ≤ blockWords L ∧ 4 * L + 1 ≤ blockWords L := by
    unfold blockWords
    omega
  refine ⟨hT.toLayout.mem_congr (fun i hi => if_pos ?_) (fun _ i hi => ?_)
    (fun _ i hi => if_pos ?_), hT.root⟩
  · omega
  · simp only [BTNode.valueBuff]
    rw [if_pos (by omega), if_pos (by omega)]
  · omega

end TiPI.BLinkTree
