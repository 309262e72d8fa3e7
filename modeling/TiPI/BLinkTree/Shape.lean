import TiPI.BLinkTree.Replies
import TiPI.BLinkTree.Leaves

/-!
# The shape of the file

What a reader of the file finds from the root offset on, level by level: nodes in order, with their
flags, linked to their right neighbours and all leaves at one depth.
-/

namespace TiPI.BLinkTree

variable {L : Nat} {T : Tree} {file : ServiceFile L} {key : Key}

/-! ### What a valid file is -/

namespace BTNode

/-- The node by itself is in order. -/
structure Formed (node : BTNode L) (o : Offset) : Prop where
  self : node.self = o
  ascending : node.keys.Pairwise (· < ·)
  size_le : node.keyBuffSize ≤ 2 * L
  buffSize : node.buffSize =
    if node.btnodeFlag LEAF_NODE then node.keyBuffSize else node.keyBuffSize + 1

end BTNode

namespace ServiceFile

/-- The children of a node with the keys they start at: the first one starts where the node does. -/
def kids (file : ServiceFile L) (p : Key × Offset) : List (Key × Offset) :=
  match file.node p.2 with
  | none => []
  | some node =>
    if node.btnodeFlag LEAF_NODE then [] else (p.1 :: node.keys).zip node.children

/-- The nodes at a depth below the root, from left to right, with the keys they start at. -/
def level (file : ServiceFile L) : Nat → List (Key × Offset)
  | 0 => [(0, file.root)]
  | d + 1 => (file.level d).flatMap file.kids

/-- The keys of a node and of the nodes below it. -/
inductive Below (file : ServiceFile L) : Offset → Key → Prop
  | key {o : Offset} {node : BTNode L} {k : Key} (read : file.node o = some node)
      (mem : k ∈ node.keys) : Below file o k
  | child {o c : Offset} {node : BTNode L} {k : Key} (read : file.node o = some node)
      (inner : node.btnodeFlag LEAF_NODE = false) (mem : c ∈ node.children)
      (below : Below file c k) : Below file o k

/-- The node is linked to its right neighbour and carries the neighbour's start. -/
def LinkedTo (file : ServiceFile L) (p q : Key × Offset) : Prop :=
  ∃ node, file.node p.2 = some node ∧ node.right = q.2 ∧ node.highKey = q.1

structure Shape (file : ServiceFile L) : Prop where
  formed : ∀ d, ∀ p ∈ file.level d, ∃ node, file.node p.2 = some node ∧ node.Formed p.2
  root : ∀ d, ∀ p ∈ file.level d, ∀ node, file.node p.2 = some node →
    (node.btnodeFlag ROOT_NODE = true ↔ d = 0)
  leaves : ∃ h, file.level h ≠ [] ∧ ∀ d, ∀ p ∈ file.level d, ∀ node, file.node p.2 = some node →
    (node.btnodeFlag LEAF_NODE = true ↔ d = h)
  between : ∀ d, ∀ p ∈ file.level d, ∀ node, file.node p.2 = some node →
    node.btnodeFlag LEAF_NODE = false → ∀ j, j ≤ node.keyBuffSize →
      ∀ k, file.Below (node.nodeBuff j) k →
        (∀ i, j = i + 1 → node.keyBuff i ≤ k) ∧ (j < node.keyBuffSize → k < node.keyBuff j)
  linked : ∀ d, (file.level d).IsChain file.LinkedTo
  last : ∀ d, ∀ p ∈ (file.level d).getLast?, ∀ node, file.node p.2 = some node →
    node.right = INVALID_OFFSET

end ServiceFile

/-! ### The slots of a node -/

/-- A node with the key it starts at. -/
def starting (T : Tree) (o : Offset) : Key × Offset := (T.low o, o)

section Slots

variable {o : Offset} {node : BTNode L} (hT : IsNode T o node) (h0 : 0 < T.level o)

include hT

lemma IsNode.level_pos (hinner : node.btnodeFlag LEAF_NODE = false) : 0 < T.level o := by
  refine Nat.pos_of_ne_zero fun h0 => ?_
  rw [hT.leaf.2 h0] at hinner
  exact Bool.noConfusion hinner

lemma IsNode.formed : node.Formed o where
  self := hT.self
  ascending := by
    rw [BTNode.keys, List.pairwise_map]
    refine List.pairwise_lt_range.imp_of_mem fun {i j} _ hj hij => ?_
    exact hT.ascending i j hij (List.mem_range.1 hj)
  size_le := hT.size_le
  buffSize := by
    rw [hT.buffSize]
    exact if_congr hT.leaf.symm rfl rfl

include h0

/-- The kids of a node are those in its slots. -/
lemma IsNode.mem_kids_iff {c : Offset} :
    c ∈ T.kids o ↔ ∃ j, j ≤ node.keyBuffSize ∧ c = node.nodeBuff j := by
  constructor
  · intro hc
    rcases hT.kid h0 c hc with rfl | ⟨i, hi, rfl⟩
    · exact ⟨0, Nat.zero_le _, rfl⟩
    · exact ⟨i + 1, hi, rfl⟩
  · rintro ⟨j, hj, rfl⟩
    cases j with
    | zero => exact (hT.first h0).1
    | succ i => exact (hT.sep h0 i hj).1

/-- The starts of the kids ascend. -/
lemma IsNode.low_lt_low {i j : Nat} (hij : i < j) (hj : j ≤ node.keyBuffSize) :
    T.low (node.nodeBuff i) < T.low (node.nodeBuff j) := by
  cases j with
  | zero => exact absurd hij (Nat.not_lt_zero i)
  | succ j =>
    rw [(hT.sep h0 j hj).2]
    cases i with
    | zero =>
      rw [(hT.first h0).2]
      exact hT.front h0 j hj
    | succ i =>
      rw [(hT.sep h0 i ((Nat.lt_of_succ_lt hij).trans_le hj)).2]
      exact hT.ascending i j (Nat.lt_of_succ_lt_succ hij) hj

lemma IsNode.low_le_last :
    ∀ e ∈ T.kids o, T.low e ≤ T.low (node.nodeBuff node.keyBuffSize) := by
  intro e he
  obtain ⟨i, hi, rfl⟩ := (hT.mem_kids_iff h0).1 he
  rcases Nat.lt_or_eq_of_le hi with hlt | rfl
  · exact (hT.low_lt_low h0 hlt le_rfl).le
  · exact le_rfl

lemma IsNode.inner : node.btnodeFlag LEAF_NODE = false := by
  rw [← Bool.not_eq_true, hT.leaf]
  exact h0.ne'

/-- The slots of a node with the keys they start at. -/
lemma IsNode.kids_eq (hnode : file.node o = some node) :
    file.kids (starting T o) =
      ((List.range (node.keyBuffSize + 1)).map node.nodeBuff).map (starting T) := by
  have hbuff : node.buffSize = node.keyBuffSize + 1 := hT.buffSize.trans (if_neg h0.ne')
  have hkeys : T.low o :: node.keys =
      (List.range (node.keyBuffSize + 1)).map fun j => T.low (node.nodeBuff j) := by
    rw [List.range_succ_eq_map, List.map_cons, (hT.first h0).2, List.map_map, BTNode.keys]
    congr 1
    refine List.map_congr_left fun i hi => ?_
    exact ((hT.sep h0 i (List.mem_range.1 hi)).2).symm
  rw [ServiceFile.kids, starting, hnode]
  simp only [hT.inner h0, Bool.false_eq_true, if_false]
  rw [hkeys, BTNode.children, hbuff, List.zip_map', List.map_map]
  rfl

end Slots

/-! ### The file of a tree -/

/-- The last node of a chain has no right neighbour. -/
lemma last_starting {a : Offset} {l : List Offset} (hl : T.Chain a l) {p : Key × Offset}
    (hp : p ∈ (l.map (starting T)).getLast?) : ∃ o ∈ l, T.next o = none ∧ p = starting T o := by
  induction hl with
  | @last a hnext =>
    obtain rfl : starting T a = p := Option.some.inj hp
    exact ⟨a, List.mem_singleton_self a, hnext, rfl⟩
  | @cons a b l hnext hl ih =>
    have hp' : p ∈ (l.map (starting T)).getLast? := by
      cases hl with
      | last _ => exact hp
      | cons _ _ => rwa [List.map_cons, List.map_cons, List.getLast?_cons_cons] at hp
    obtain ⟨o, ho, hend, hpo⟩ := ih hp'
    exact ⟨o, List.mem_cons_of_mem a ho, hend, hpo⟩

namespace AtRest

variable (h : AtRest T file) {o : Offset} {node : BTNode L}

include h

lemma node_of (ho : o ∈ T.nodes) (hnode : file.node o = some node) : IsNode T o node := by
  obtain ⟨node', hnode', hT⟩ := h.node o ho
  obtain rfl := Option.some.inj (hnode.symm.trans hnode')
  exact hT

/-- The slots of a node are linked one after the other. -/
lemma next_slot (ho : o ∈ T.nodes) (hT : IsNode T o node) (h0 : 0 < T.level o) {j : Nat}
    (hj : j < node.keyBuffSize) :
    T.next (node.nodeBuff j) = some (node.nodeBuff (j + 1)) := by
  apply h.valid.next_kid ho ((hT.mem_kids_iff h0).2 ⟨j, hj.le, rfl⟩)
    ((hT.mem_kids_iff h0).2 ⟨j + 1, hj, rfl⟩) (hT.low_lt_low h0 (Nat.lt_succ_self j) hj)
  intro e he hlt
  obtain ⟨i, hi, rfl⟩ := (hT.mem_kids_iff h0).1 he
  have hji : j < i := by
    by_contra hij
    rcases Nat.lt_or_eq_of_le (not_lt.1 hij) with hij | rfl
    · exact absurd hlt (hT.low_lt_low h0 hij hj.le).not_gt
    · exact absurd hlt (lt_irrefl _)
  rcases Nat.lt_or_eq_of_le (Nat.succ_le_of_lt hji) with hij | heq
  · exact (hT.low_lt_low h0 hij hi).le
  · exact (congrArg (fun i => T.low (node.nodeBuff i)) heq).le

/-! ### The levels -/

lemma kids_chain {a : Offset} {l : List Offset} (hl : T.Chain a l) (ha : a ∈ T.nodes)
    (h0 : 0 < T.level a) :
    ∃ b l', T.Chain b l' ∧ b ∈ T.kids a ∧ T.low b = T.low a ∧
      (l.map (starting T)).flatMap file.kids = l'.map (starting T) := by
  induction hl with
  | @last a hnext =>
    obtain ⟨node, hnode, hT⟩ := h.node a ha
    obtain ⟨hfirst, hlow⟩ := hT.first h0
    have hend : T.next (node.nodeBuff node.keyBuffSize) = none :=
      h.valid.next_last_kid_none ha ((hT.mem_kids_iff h0).2 ⟨_, le_rfl, rfl⟩)
        (hT.low_le_last h0) hnext
    refine ⟨node.nodeBuff 0, (List.range (node.keyBuffSize + 1)).map node.nodeBuff ++ [], ?_,
      hfirst, hlow, ?_⟩
    · exact BLink.Chain.segment (fun i hi => h.next_slot ha hT h0 hi) (.last hend)
    · rw [List.append_nil, List.map_cons, List.flatMap_cons, hT.kids_eq h0 hnode]
      simp
  | @cons a b l hnext hl ih =>
    obtain ⟨node, hnode, hT⟩ := h.node a ha
    obtain ⟨hfirst, hlow⟩ := hT.first h0
    have hb := h.valid.next_mem a ha b hnext
    obtain ⟨c, l', hl', hc, hclow, hkids⟩ := ih hb ((h.valid.next_level a ha b hnext).symm ▸ h0)
    have hnext' : T.next (node.nodeBuff node.keyBuffSize) = some c :=
      h.valid.next_last_kid ha ((hT.mem_kids_iff h0).2 ⟨_, le_rfl, rfl⟩) (hT.low_le_last h0)
        hnext hc hclow
    refine ⟨node.nodeBuff 0, (List.range (node.keyBuffSize + 1)).map node.nodeBuff ++ l', ?_,
      hfirst, hlow, ?_⟩
    · exact BLink.Chain.segment (fun i hi => h.next_slot ha hT h0 hi) (.cons hnext' hl')
    · rw [List.map_cons, List.flatMap_cons, hkids, hT.kids_eq h0 hnode, List.map_append]

/-- A level of the file is the chain of a level of the tree. -/
lemma level_chain {d : Nat} (hd : d ≤ T.top) :
    ∃ a l, T.Chain a l ∧ a ∈ T.nodes ∧ T.level a + d = T.top ∧ T.low a = ⊥ ∧
      file.level d = l.map (starting T) := by
  induction d with
  | zero =>
    have hlow : T.low file.root = ⊥ := h.valid.low_top _ h.rootMem h.rootTop
    refine ⟨file.root, [file.root], .last (h.valid.next_top h.rootMem h.rootTop), h.rootMem,
      h.rootTop, hlow, ?_⟩
    rw [ServiceFile.level, List.map_cons, starting, hlow]
    rfl
  | succ d ih =>
    obtain ⟨a, l, hl, ha, hlevel, hlow, heq⟩ := ih (Nat.le_of_succ_le hd)
    obtain ⟨b, l', hl', hb, hblow, hkids⟩ := h.kids_chain hl ha (by omega)
    have hblevel := h.valid.kid_level a ha b hb
    refine ⟨b, l', hl', h.valid.kid_mem a ha b hb, by omega, hblow.trans hlow, ?_⟩
    rw [ServiceFile.level, heq, hkids]

lemma of_mem_level {d : Nat} {p : Key × Offset} (hp : p ∈ file.level d) :
    ∃ o ∈ T.nodes, p = starting T o ∧ T.level o + d = T.top := by
  induction d generalizing p with
  | zero =>
    have hlow : T.low file.root = ⊥ := h.valid.low_top _ h.rootMem h.rootTop
    refine ⟨file.root, h.rootMem, ?_, h.rootTop⟩
    rw [List.mem_singleton.1 hp, starting, hlow]
    rfl
  | succ d ih =>
    obtain ⟨q, hq, hpq⟩ := List.mem_flatMap.1 hp
    obtain ⟨o, ho, rfl, hlevel⟩ := ih hq
    obtain ⟨node, hnode, hT⟩ := h.node o ho
    by_cases h0 : 0 < T.level o
    · rw [hT.kids_eq h0 hnode] at hpq
      obtain ⟨c, hc, rfl⟩ := List.mem_map.1 hpq
      obtain ⟨j, hj, rfl⟩ := List.mem_map.1 hc
      have hkid : node.nodeBuff j ∈ T.kids o :=
        (hT.mem_kids_iff h0).2 ⟨j, Nat.le_of_lt_succ (List.mem_range.1 hj), rfl⟩
      have hclevel := h.valid.kid_level o ho _ hkid
      exact ⟨_, h.valid.kid_mem o ho _ hkid, rfl, by omega⟩
    · -- leaves have no kids
      rw [ServiceFile.kids, starting, hnode] at hpq
      simp [hT.leaf.2 (Nat.eq_zero_of_not_pos h0)] at hpq

/-! ### What lies below a node -/

lemma covers_of_below {k : Key} (hbelow : file.Below o k) (ho : o ∈ T.nodes) :
    T.Covers o k := by
  induction hbelow with
  | @key o node k read mem =>
    have hT := h.node_of ho read
    obtain ⟨i, hi, rfl⟩ := List.mem_map.1 mem
    rw [List.mem_range] at hi
    rcases Nat.eq_zero_or_pos (T.level o) with h0 | h0
    · exact h.valid.value_covered o ho _ _ ((hT.value h0 _ _).2 ⟨i, hi, rfl, rfl⟩)
    · obtain ⟨hmem, hlow⟩ := hT.sep h0 i hi
      exact hlow ▸ h.valid.kid_covered o ho _ hmem
  | @child o c node k read inner mem _ ih =>
    have hT := h.node_of ho read
    have h0 := hT.level_pos inner
    obtain ⟨j, hj, rfl⟩ := List.mem_map.1 mem
    rw [List.mem_range, hT.buffSize, if_neg h0.ne'] at hj
    have hkid := (hT.mem_kids_iff h0).2 ⟨j, Nat.le_of_lt_succ hj, rfl⟩
    have hc := h.valid.kid_mem o ho _ hkid
    exact h.valid.covers_above ho hc (h.valid.kid_level o ho _ hkid)
      (h.valid.kid_covered o ho _ hkid) (h.valid.covers_low hc) (ih hc)

lemma between_of_below (ho : o ∈ T.nodes) (hnode : file.node o = some node)
    (inner : node.btnodeFlag LEAF_NODE = false) {j : Nat} (hj : j ≤ node.keyBuffSize) {k : Key}
    (hbelow : file.Below (node.nodeBuff j) k) :
    (∀ i, j = i + 1 → node.keyBuff i ≤ k) ∧ (j < node.keyBuffSize → k < node.keyBuff j) := by
  have hT := h.node_of ho hnode
  have h0 := hT.level_pos inner
  have hkid := (hT.mem_kids_iff h0).2 ⟨j, hj, rfl⟩
  have hcov := h.covers_of_below hbelow (h.valid.kid_mem o ho _ hkid)
  constructor
  · rintro i rfl
    rw [← (hT.sep h0 i hj).2]
    exact hcov.1
  · intro hlt
    rw [← (hT.sep h0 j hlt).2]
    exact hcov.2 _ (h.next_slot ho hT h0 hlt)

/-! ### The links of a level -/

lemma isChain_of_chain {a : Offset} {l : List Offset} (hl : T.Chain a l) (ha : a ∈ T.nodes) :
    (l.map (starting T)).IsChain file.LinkedTo := by
  induction hl with
  | last _ => exact .singleton _
  | @cons a b l hnext hl ih =>
    obtain ⟨node, hnode, hT⟩ := h.node a ha
    have hlinked : file.LinkedTo (starting T a) (starting T b) :=
      ⟨node, hnode, hT.right_eq hnext, hT.high b hnext⟩
    have hrest := ih (h.valid.next_mem a ha b hnext)
    cases hl with
    | last _ => exact .cons_cons hlinked hrest
    | cons _ _ => exact .cons_cons hlinked hrest

/-- A file that is a tree has its shape. -/
theorem shape : file.Shape where
  formed d p hp := by
    obtain ⟨o, ho, rfl, -⟩ := h.of_mem_level hp
    obtain ⟨node, hnode, hT⟩ := h.node o ho
    exact ⟨node, hnode, hT.formed⟩
  root d p hp node hnode := by
    obtain ⟨o, ho, rfl, hlevel⟩ := h.of_mem_level hp
    rw [(h.node_of ho hnode).root]
    omega
  leaves := by
    obtain ⟨a, l, hl, -, -, -, heq⟩ := h.level_chain le_rfl
    refine ⟨T.top, ?_, fun d p hp node hnode => ?_⟩
    · rw [heq]
      cases hl <;> exact List.cons_ne_nil _ _
    · obtain ⟨o, ho, rfl, hlevel⟩ := h.of_mem_level hp
      rw [(h.node_of ho hnode).leaf]
      omega
  between d p hp node hnode inner j hj k hbelow := by
    obtain ⟨o, ho, rfl, -⟩ := h.of_mem_level hp
    exact h.between_of_below ho hnode inner hj hbelow
  linked d := by
    rcases Nat.lt_or_ge T.top d with hlt | hd
    · have hnil : file.level d = [] := List.eq_nil_iff_forall_not_mem.2 fun p hp => by
        obtain ⟨o, -, -, hlevel⟩ := h.of_mem_level hp
        omega
      rw [hnil]
      exact .nil
    · obtain ⟨a, l, hl, ha, -, -, heq⟩ := h.level_chain hd
      rw [heq]
      exact h.isChain_of_chain hl ha
  last d p hp node hnode := by
    have hd : d ≤ T.top := by
      obtain ⟨o, -, -, hlevel⟩ := h.of_mem_level (List.mem_of_mem_getLast? hp)
      omega
    obtain ⟨a, l, hl, ha, -, -, heq⟩ := h.level_chain hd
    rw [heq] at hp
    obtain ⟨o, hol, hnext, rfl⟩ := last_starting hl hp
    have ho := ((hl.mem_iff h.valid ha).1 hol).1
    exact (h.node_of ho hnode).right_eq_invalid hnext

end AtRest

/-! ### Whole runs -/

namespace System

lemma Sequential.shape {s : System L} {M : Key → Option Value} {m : Tid → Nat} {skip : Prop}
    (h : Sequential skip s T M m) (hjob : (s.thread 0).job = none) : s.store.file.Shape := by
  refine (h.inv.atRest fun t => ?_).shape
  have hidle : (s.thread t).job = none := by
    by_cases ht : t = 0
    · exact ht ▸ hjob
    · exact (h.sole t ht).1
  simp [Thread.orphans, Thread.dirty, hidle]

/-- The next step descends through live slots and splits no internal node of more than eight
words. -/
def Orderly (s : System L) : Prop := (s.thread 0).Live ∧ (s.thread 0).Copies

instance (s : System L) : Decidable s.Orderly := inferInstanceAs (Decidable (_ ∧ _))

/-- Writes from the empty file on keep the shape, and all of them return. -/
theorem writes_keep_shape {L : Nat} (hL : 2 ≤ L) (ws : List (Key × Value)) (mem : Nat → Memory)
    (hok : ∀ n s, alone L (ws.map Op.ofWrite) mem n = some s → s.Orderly) :
    (∃ n s, alone L (ws.map Op.ofWrite) mem n = some s ∧
      (s.thread 0).job = none ∧ (s.thread 0).todo = []) ∧
    ∀ n s, alone L (ws.map Op.ofWrite) mem n = some s → (s.thread 0).job = none →
      s.store.file.Shape := by
  have hL' : 0 < L := Nat.zero_lt_of_lt hL
  have hsound : ∀ n s, alone L (ws.map Op.ofWrite) mem n = some s → Sound True s (0, mem n) :=
    fun n s hs => ⟨rfl, (hok n s hs).1, (hok n s hs).2, .inl trivial⟩
  refine ⟨alone_finishes hL' hsound, ?_⟩
  intro n s hs hjob
  obtain ⟨T, M, m, h⟩ : ∃ T M m, Sequential True s T M m := by
    refine trace_invariant (P := fun s => ∃ T M m, Sequential True s T M m)
      ⟨_, _, _, sequential_init L (ws.map Op.ofWrite) True⟩ hsound ?_ hs
    rintro s a s' ⟨T, M, m, h⟩ hok hstep
    obtain ⟨T', M', m', h', -⟩ := h.step_of_sound hL' hok hstep
    exact ⟨T', M', m', h'⟩
  exact h.shape hjob

lemma orderly_of_idle (s : System L) (h : (s.thread 0).job = none) : s.Orderly := by
  simp [Orderly, Thread.Live, Thread.Copies, Thread.descent, Thread.splitting, h]

/-- Writes that split leaves, the root and an internal node. -/
def tens : List (Key × Value) := (List.range 14).map fun i => (10 * (i + 1), (i, 0))

theorem tens_keep_shape :
    (∃ n s, alone 2 (tens.map Op.ofWrite) (fun _ => Watch.zeroed) n = some s ∧
      (s.thread 0).job = none ∧ (s.thread 0).todo = []) ∧
    ∀ n s, alone 2 (tens.map Op.ofWrite) (fun _ => Watch.zeroed) n = some s →
      (s.thread 0).job = none → s.store.file.Shape :=
  writes_keep_shape (le_refl 2) tens (fun _ => Watch.zeroed)
    (forall_of_exec (n := 255) orderly_of_idle (by decide +kernel))

/-- Memory in which word `1` of a new node holds the key that is written last. -/
def stale : Memory := fun i => if i = 1 then 15 else if i = 6 then 100 else 7

def ones : List (Key × Value) := (List.range 15).map fun i => (i + 1, (0, 0))

/-- The level below the root has a leaf and an internal node. -/
def Uneven (file : ServiceFile L) : Prop :=
  (∃ p ∈ file.level 1, ∃ node ∈ file.node p.2, node.btnodeFlag LEAF_NODE = true) ∧
    ∃ p ∈ file.level 1, ∃ node ∈ file.node p.2, node.btnodeFlag LEAF_NODE = false

instance (file : ServiceFile L) : Decidable (Uneven file) := inferInstanceAs (Decidable (_ ∧ _))

lemma Uneven.not_shape {file : ServiceFile L} (h : Uneven file) : ¬file.Shape := by
  intro hshape
  obtain ⟨⟨p, hp, node, hnode, hleaf⟩, q, hq, node', hnode', hinner⟩ := h
  obtain ⟨height, -, hleaves⟩ := hshape.leaves
  have hone : 1 = height := (hleaves 1 p hp node hnode).1 hleaf
  rw [(hleaves 1 q hq node' hnode').2 hone] at hinner
  exact Bool.noConfusion hinner

/-- The last write finds its key behind the live ones and puts a leaf among internal nodes. -/
theorem ones_lose_shape : ∃ n, ∃ s : System 2, alone 2 (ones.map Op.ofWrite) (fun _ => stale) n =
    some s ∧ (s.thread 0).job = none ∧ (s.thread 0).todo = [] ∧ ¬s.store.file.Shape := by
  have hrun : (alone 2 (ones.map Op.ofWrite) (fun _ => stale) 294).any
      (fun s => finished s && decide (Uneven s.store.file)) = true := by
    decide +kernel
  obtain ⟨s, hs, hend⟩ := (Option.any_eq_true _ _).1 hrun
  obtain ⟨⟨htodo, hjob⟩, huneven⟩ :
      ((s.thread 0).todo = [] ∧ (s.thread 0).job = none) ∧ Uneven s.store.file := by
    simpa [finished] using hend
  exact ⟨294, s, hs, hjob, htodo, huneven.not_shape⟩

end System

end TiPI.BLinkTree
