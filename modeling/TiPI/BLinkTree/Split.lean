import TiPI.BLinkTree.Layout
import TiPI.BLinkTree.Tree

/-!
# One pass of the split loop

What the variables of the loop mean for the tree, and what the tree is after the current node was
split and the key or the child put into one of the halves.
-/

namespace TiPI.BLinkTree

variable {L : Nat} {T T' : Tree} {orphans : Set Offset} {key : Key} {value : Value}

namespace SplitVars

variable {v : SplitVars L} {r p : Offset}

/-- The current node and what is to be put into it: the key on level 0, above it the orphan
`nodeToAdd`, which no separator of the node parts from the key. -/
structure Here (v : SplitVars L) (T : Tree) (key : Key) : Prop where
  mem : v.lock ∈ T.nodes
  layout : Layout T v.lock v.current
  covers : T.Covers v.lock key
  coversAdd : T.Covers v.lock v.keyToAdd
  leaf : T.level v.lock = 0 → v.keyToAdd = key
  inner : 0 < T.level v.lock → v.nodeToAdd ∈ T.nodes ∧
    T.level v.lock = T.level v.nodeToAdd + 1 ∧ T.low v.nodeToAdd = v.keyToAdd
  side : 0 < T.level v.lock → ∀ d ∈ T.kids v.lock,
    T.low d ≤ key ∧ T.low d < v.keyToAdd ∨ key < T.low d ∧ v.keyToAdd < T.low d

/-- The key or the child put into node `o`. -/
def add (v : SplitVars L) (key : Key) (value : Value) (o : Offset) (T : Tree) : Tree :=
  if v.current.btnodeFlag LEAF_NODE then T.put o key value else T.addKid o v.nodeToAdd

/-- The half the key or the child is put into. -/
def half (v : SplitVars L) (key : Key) (r : Offset) : Offset :=
  if key < v.current.keyBuff L then v.lock else r

/-- The tree after the pass. -/
def evolve (v : SplitVars L) (key : Key) (value : Value) (r : Offset) (T : Tree) : Tree :=
  v.add key value (v.half key r) (T.splitAt v.lock r (v.current.keyBuff L))

/-- The orphan that the pass lists. -/
def orphan (v : SplitVars L) : Set Offset :=
  if v.current.btnodeFlag LEAF_NODE then ∅ else {v.nodeToAdd}

/-- The eight words `btnodeSplit` copies cover the children of the right half and fit in it. -/
def CopiesChildren (v : SplitVars L) : Prop :=
  v.current.btnodeFlag LEAF_NODE = false → 2 ≤ L ∧ L ≤ 8

instance (v : SplitVars L) : Decidable v.CopiesChildren :=
  inferInstanceAs (Decidable (_ → _))

lemma Here.congr (h : v.Here T key) (hg : T.Grows T') (ha : T.AgreeAt T' v.lock) :
    v.Here T' key where
  mem := hg.mem _ h.mem
  layout := h.layout.congr ha
  covers := ha.covers_iff.2 h.covers
  coversAdd := ha.covers_iff.2 h.coversAdd
  leaf h0 := h.leaf (ha.level ▸ h0)
  inner h0 := by
    obtain ⟨hmem, hlevel, hlow⟩ := h.inner (ha.level ▸ h0)
    exact ⟨hg.mem _ hmem, by rw [ha.level, hg.level _ hmem, hlevel], by rw [hg.low _ hmem, hlow]⟩
  side h0 d hd := by
    rw [ha.kids] at hd
    rw [ha.kids_low d hd]
    exact h.side (ha.level ▸ h0) d hd

lemma Here.isLeaf (h : v.Here T key) :
    v.current.btnodeFlag LEAF_NODE = true ↔ T.level v.lock = 0 := h.layout.leaf

lemma Here.not_isLeaf (h : v.Here T key) :
    v.current.btnodeFlag LEAF_NODE = false ↔ 0 < T.level v.lock := by
  rw [← Bool.not_eq_true, h.isLeaf, Nat.pos_iff_ne_zero]

/-- The current node with what is to be put into it. -/
def insert (v : SplitVars L) (key : Key) (value : Value) : BTNode L :=
  if v.current.btnodeFlag LEAF_NODE then v.current.btnodeAddKeyValue key value
  else v.current.btnodeAddKeyChild v.keyToAdd v.nodeToAdd

lemma Here.add_valid (h : v.Here T key) (value : Value) (hT : T.Valid orphans) :
    (v.add key value v.lock T).Valid (orphans \ v.orphan) := by
  unfold add orphan
  by_cases hleaf : v.current.btnodeFlag LEAF_NODE = true
  · rw [if_pos hleaf, if_pos hleaf, Set.sdiff_empty]
    exact hT.put h.covers
  · obtain ⟨hmem, hlevel, hlow⟩ := h.inner (h.not_isLeaf.1 (Bool.not_eq_true _ ▸ hleaf))
    rw [if_neg hleaf, if_neg hleaf]
    exact hT.addKid h.mem hmem hlevel (hlow ▸ h.coversAdd)

/-- The map after the pass: level 0 gets the value. -/
def stores (v : SplitVars L) (key : Key) (value : Value) (M : Key → Option Value) :
    Key → Option Value :=
  if v.current.btnodeFlag LEAF_NODE then Function.update M key (some value) else M

lemma Here.add_represents (h : v.Here T key) (value : Value) (hT : T.Valid orphans)
    {M : Key → Option Value} (hM : T.Represents M) :
    (v.add key value v.lock T).Represents (v.stores key value M) := by
  unfold add stores
  by_cases hleaf : v.current.btnodeFlag LEAF_NODE = true
  · rw [if_pos hleaf, if_pos hleaf]
    exact hM.put hT h.mem (h.isLeaf.1 hleaf) h.covers
  · rw [if_neg hleaf, if_neg hleaf]
    exact hM.addKid

/-- With room in the current node the insertion lays out the tree it makes. -/
lemma Here.insert_layout (h : v.Here T key) (value : Value)
    (hroom : v.current.keyBuffSize < 2 * L) :
    Layout (v.add key value v.lock T) v.lock (v.insert key value) := by
  unfold add insert
  by_cases hleaf : v.current.btnodeFlag LEAF_NODE = true
  · rw [if_pos hleaf, if_pos hleaf]
    exact h.layout.addKeyValue (h.isLeaf.1 hleaf) hroom
  · have h0 := h.not_isLeaf.1 (Bool.not_eq_true _ ▸ hleaf)
    obtain ⟨-, -, hlow⟩ := h.inner h0
    rw [if_neg hleaf, if_neg hleaf, ← hlow]
    refine h.layout.addKeyChild h0 hroom (hlow ▸ h.coversAdd.1) fun d hd => ?_
    rw [hlow]
    rcases h.side h0 d hd with hd | hd
    · exact hd.2.ne
    · exact hd.2.ne'

lemma add_changesAt (v : SplitVars L) (key : Key) (value : Value) (o : Offset) (T : Tree) :
    T.ChangesAt (v.add key value o T) o := by
  unfold add
  split_ifs
  · exact BLink.changesAt_put
  · exact BLink.changesAt_addKid

/-! ### The split -/

section Split

variable (hv : v.Here T key) (hT : T.Valid orphans) (hr : r ∉ T.nodes) (hL : 0 < L)
  (hfull : v.current.keyBuffSize = 2 * L) (hcopy : v.CopiesChildren)

/-- The half that gets what is carried. -/
def halfNode (v : SplitVars L) (key : Key) (r : Offset) (fresh : Memory) : BTNode L :=
  if key < v.current.keyBuff L then (v.current.btnodeSplit r fresh).1
  else (v.current.btnodeSplit r fresh).2

include hv hT hr hL hfull hcopy in
lemma Here.split_layout (fresh : Memory) :
    Layout (T.splitAt v.lock r (v.current.keyBuff L)) v.lock (v.current.btnodeSplit r fresh).1 ∧
      Layout (T.splitAt v.lock r (v.current.keyBuff L)) r (v.current.btnodeSplit r fresh).2 := by
  by_cases h0 : T.level v.lock = 0
  · exact ⟨hv.layout.split_leaf_left hv.mem hr hL h0 hfull fresh,
      hv.layout.split_leaf_right hT hv.mem hr hL h0 hfull fresh⟩
  · have hpos := Nat.pos_of_ne_zero h0
    obtain ⟨h2, h8⟩ := hcopy (hv.not_isLeaf.2 hpos)
    exact ⟨hv.layout.split_inner_left hT hv.mem hr h2 hpos hfull fresh,
      hv.layout.split_inner_right hT hv.mem hr h8 h2 hpos hfull fresh⟩

include hv hT hr hL hfull in
/-- What is carried belongs into the half of the key. -/
lemma Here.half (fresh : Memory) (hcopy : v.CopiesChildren) :
    ({ v with lock := v.half key r, current := v.halfNode key r fresh } : SplitVars L).Here
      (T.splitAt v.lock r (v.current.keyBuff L)) key := by
  obtain ⟨hleft, hright⟩ := hv.split_layout hT hr hL hfull hcopy fresh
  obtain ⟨hmid, -, hkid⟩ := hv.layout.mid hT hv.mem hL hfull
  have hrlock : r ≠ v.lock := (ne_of_mem_of_not_mem hv.mem hr).symm
  have hg : T.Grows (T.splitAt v.lock r (v.current.keyBuff L)) :=
    (BLink.changesAt_splitAt hT hr).toGrows
  have hlow : ∀ d ∈ T.kids v.lock, (T.splitAt v.lock r (v.current.keyBuff L)).low d = T.low d :=
    fun d hd => hg.low d (hT.kid_mem _ hv.mem d hd)
  have hinner : 0 < T.level v.lock →
      v.nodeToAdd ∈ (T.splitAt v.lock r (v.current.keyBuff L)).nodes ∧ T.level v.lock =
        (T.splitAt v.lock r (v.current.keyBuff L)).level v.nodeToAdd + 1 ∧
      (T.splitAt v.lock r (v.current.keyBuff L)).low v.nodeToAdd = v.keyToAdd := by
    intro h0
    obtain ⟨hmem, hlevel, hlow⟩ := hv.inner h0
    exact ⟨hg.mem _ hmem, by rw [hg.level _ hmem, hlevel], by rw [hg.low _ hmem, hlow]⟩
  -- the key and the carried key lie on the same side of the cut
  have hsame : key < v.current.keyBuff L ↔ v.keyToAdd < v.current.keyBuff L := by
    rcases Nat.eq_zero_or_pos (T.level v.lock) with h0 | h0
    · rw [hv.leaf h0]
    · obtain ⟨c, hc, hlow⟩ := hkid h0
      rcases hv.side h0 c hc with ⟨h1, h2⟩ | ⟨h1, h2⟩
      · rw [hlow] at h1 h2
        exact ⟨fun h => absurd h (not_lt.2 h1), fun h => absurd h (not_lt.2 h2.le)⟩
      · rw [hlow] at h1 h2
        exact ⟨fun _ => h2, fun _ => h1⟩
  unfold SplitVars.half halfNode
  by_cases hk : key < v.current.keyBuff L
  · rw [if_pos hk, if_pos hk]
    have hlevel := hg.level _ hv.mem
    exact
      { mem := hg.mem _ hv.mem
        layout := hleft
        covers := (BLink.covers_splitAt_self hr hv.mem hmid).2 ⟨hv.covers, hk⟩
        coversAdd := (BLink.covers_splitAt_self hr hv.mem hmid).2 ⟨hv.coversAdd, hsame.1 hk⟩
        leaf := fun h0 => hv.leaf (hlevel ▸ h0)
        inner := fun h0 => by
          simp only [hlevel] at h0 ⊢
          exact hinner h0
        side := fun h0 d hd => by
          simp only [hlevel] at h0
          rw [BLink.splitAt_kids_self] at hd
          rw [hlow d hd.1]
          exact hv.side h0 d hd.1 }
  · rw [if_neg hk, if_neg hk]
    have hlevel := BLink.splitAt_level_right (T := T) (a := v.lock) (r := r)
      (h := v.current.keyBuff L)
    have hadd := mt hsame.2 hk
    exact
      { mem := .inl rfl
        layout := hright
        covers := (BLink.covers_splitAt_right hT hr hv.mem hmid).2 ⟨hv.covers, not_lt.1 hk⟩
        coversAdd :=
          (BLink.covers_splitAt_right hT hr hv.mem hmid).2 ⟨hv.coversAdd, not_lt.1 hadd⟩
        leaf := fun h0 => hv.leaf (hlevel ▸ h0)
        inner := fun h0 => by
          simp only [hlevel] at h0 ⊢
          exact hinner h0
        side := fun h0 d hd => by
          simp only [hlevel] at h0
          rw [BLink.splitAt_kids_right hrlock] at hd
          rw [hlow d hd.1]
          exact hv.side h0 d hd.1 }

omit hL in
@[simp] lemma halfNode_isLeaf (v : SplitVars L) (key : Key) (r : Offset) (fresh : Memory) :
    (v.halfNode key r fresh).btnodeFlag LEAF_NODE = v.current.btnodeFlag LEAF_NODE := by
  unfold halfNode
  split_ifs
  · exact BTNode.btnodeFlag_leaf (BTNode.btnodeSplit_left _ _ _).2.2.2
  · exact BTNode.btnodeFlag_leaf (BTNode.btnodeSplit_right _ _ _).2.2

include hfull in
/-- `split` is the split with the insertion into one of the halves. -/
lemma split_eq (fresh : Memory) : v.split key value r fresh =
    if key < v.current.keyBuff L then
      (({ v with lock := v.half key r, current := v.halfNode key r fresh } : SplitVars L).insert
        key value, (v.current.btnodeSplit r fresh).2)
    else ((v.current.btnodeSplit r fresh).1,
      ({ v with lock := v.half key r, current := v.halfNode key r fresh } : SplitVars L).insert
        key value) := by
  have hhigh : (v.current.btnodeSplit r fresh).1.highKey = v.current.keyBuff L := by
    rw [(BTNode.btnodeSplit_left _ _ _).2.1, hfull, Nat.mul_div_cancel_left L Nat.two_pos]
  have hleaf := BTNode.btnodeFlag_leaf (BTNode.btnodeSplit_left v.current r fresh).2.2.2
  unfold split insert halfNode
  simp only [hhigh, hleaf]
  by_cases hk : key < v.current.keyBuff L
  · simp only [hk, if_true, hleaf]
    split_ifs <;> rfl
  · simp only [hk, if_false, BTNode.btnodeFlag_leaf (BTNode.btnodeSplit_right _ _ _).2.2]
    split_ifs <;> rfl

lemma evolve_eq (fresh : Memory) : v.evolve key value r T =
    ({ v with lock := v.half key r, current := v.halfNode key r fresh } : SplitVars L).add
      key value (v.half key r) (T.splitAt v.lock r (v.current.keyBuff L)) := by
  unfold evolve add
  simp only [halfNode_isLeaf]

variable (value) in
include hv hT hr hL hfull in
lemma Here.evolve_valid (hcopy : v.CopiesChildren) (htop : T.level v.lock < T.top) :
    (v.evolve key value r T).Valid (Insert.insert r orphans \ v.orphan) := by
  obtain ⟨hmid, hlow, hkid⟩ := hv.layout.mid hT hv.mem hL hfull
  have hT' := hT.splitAt hr hv.mem hmid hlow htop hkid
  have hvalid := (hv.half hT hr hL hfull (fun _ => 0) hcopy).add_valid value hT'
  rw [evolve_eq fun _ => 0]
  unfold orphan at hvalid ⊢
  simpa only [halfNode_isLeaf] using hvalid

variable (v key value) in
lemma evolve_changesAt (hT : T.Valid orphans) (hr : r ∉ T.nodes) :
    T.ChangesAt (v.evolve key value r T) v.lock := by
  refine (BLink.changesAt_splitAt hT hr).trans (add_changesAt v key value _ _) ?_
  unfold half
  split_ifs
  · exact .inl rfl
  · exact .inr hr

variable (value) in
include hv hT hr hL hfull in
lemma Here.evolve_layout (hcopy : v.CopiesChildren) (fresh : Memory) :
    Layout (v.evolve key value r T) v.lock (v.split key value r fresh).1 ∧
      Layout (v.evolve key value r T) r (v.split key value r fresh).2 := by
  obtain ⟨hleft, hright⟩ := hv.split_layout hT hr hL hfull hcopy fresh
  have hrlock : r ≠ v.lock := (ne_of_mem_of_not_mem hv.mem hr).symm
  have hmem : v.lock ∈ (T.splitAt v.lock r (v.current.keyBuff L)).nodes := .inr hv.mem
  have hhalf := hv.half hT hr hL hfull fresh hcopy
  have hroom : (v.halfNode key r fresh).keyBuffSize < 2 * L := by
    unfold halfNode
    split_ifs
    · rw [(BTNode.btnodeSplit_left _ _ _).2.2.1]
      omega
    · have := (BTNode.btnodeSplit_right v.current r fresh).2.1
      omega
  have hins := hhalf.insert_layout value hroom
  have hchg := add_changesAt ({ v with
    lock := v.half key r, current := v.halfNode key r fresh } : SplitVars L) key value
      (v.half key r)
    (T.splitAt v.lock r (v.current.keyBuff L))
  rw [split_eq hfull, evolve_eq fresh]
  by_cases hk : key < v.current.keyBuff L
  · have hlock : v.half key r = v.lock := if_pos hk
    rw [if_pos hk]
    refine ⟨?_, ?_⟩
    · rw [hlock] at hins ⊢
      exact hins
    · exact hright.congr (hchg.agree r (.inl rfl) (hlock ▸ hrlock))
  · have hlock : v.half key r = r := if_neg hk
    rw [if_neg hk]
    refine ⟨?_, ?_⟩
    · exact hleft.congr (hchg.agree _ hmem (by rw [hlock]; exact hrlock.symm))
    · rw [hlock] at hins ⊢
      exact hins

/-! ### The parent and the map -/

lemma evolve_shape (v : SplitVars L) (key : Key) (value : Value) (r : Offset) (T : Tree) :
    (v.evolve key value r T).nodes = Insert.insert r T.nodes ∧
      (v.evolve key value r T).level r = T.level v.lock ∧
      (v.evolve key value r T).low r = v.current.keyBuff L ∧
      (v.evolve key value r T).top = T.top := by
  unfold evolve add
  split_ifs
  · exact ⟨rfl, Function.update_self .., Function.update_self .., rfl⟩
  · exact ⟨rfl, Function.update_self .., Function.update_self .., rfl⟩

lemma insert_frame (v : SplitVars L) (key : Key) (value : Value) :
    (v.insert key value).self = v.current.self ∧ (v.insert key value).highKey = v.current.highKey ∧
      (v.insert key value).flag = v.current.flag := by
  unfold insert
  split_ifs
  · exact BTNode.addKeyValue_frame _ _ _
  · exact ⟨rfl, rfl, rfl⟩

variable (key value) in
include hfull in
lemma split_frame (r : Offset) (fresh : Memory) :
    ((v.split key value r fresh).1.self = v.current.self ∧
      (v.split key value r fresh).1.highKey = v.current.keyBuff L ∧
      (v.split key value r fresh).1.flag = v.current.flag &&& ~~~ROOT_NODE) ∧
    (v.split key value r fresh).2.self = r ∧
      (v.split key value r fresh).2.flag = v.current.flag &&& ~~~ROOT_NODE := by
  obtain ⟨hself, hhigh, -, hflag⟩ := BTNode.btnodeSplit_left v.current r fresh
  obtain ⟨hself', -, hflag'⟩ := BTNode.btnodeSplit_right v.current r fresh
  rw [hfull, Nat.mul_div_cancel_left L Nat.two_pos] at hhigh
  rw [split_eq hfull]
  by_cases hk : key < v.current.keyBuff L
  · have hins := insert_frame
      ({ v with lock := v.half key r, current := v.halfNode key r fresh } : SplitVars L) key value
    simp only [halfNode, hk, if_true] at hins ⊢
    exact ⟨⟨hins.1.trans hself, hins.2.1.trans hhigh, hins.2.2.trans hflag⟩, hself', hflag'⟩
  · have hins := insert_frame
      ({ v with lock := v.half key r, current := v.halfNode key r fresh } : SplitVars L) key value
    simp only [halfNode, hk, if_false] at hins ⊢
    exact ⟨⟨hself, hhigh, hflag⟩, hins.1.trans hself', hins.2.2.trans hflag'⟩

variable (value) in
include hv hT hr hL hfull in
/-- The parent is where the new right node is to be listed. -/
lemma Here.next (hp : p ∈ T.nodes) {parent : BTNode L} (hparent : Layout T p parent)
    (hlevel : T.level p = T.level v.lock + 1) (hcov : T.Covers p v.keyToAdd) (fresh : Memory) :
    (v.next p parent (v.split key value r fresh).1 (v.split key value r fresh).2).Here
      (v.evolve key value r T) key := by
  obtain ⟨hmid, hlow, -⟩ := hv.layout.mid hT hv.mem hL hfull
  obtain ⟨hnodes, hrlevel, hrlow, -⟩ := evolve_shape v key value r T
  obtain ⟨⟨-, hhigh, -⟩, hself, -⟩ := split_frame key value hfull r fresh
  have hcovers : ∀ {k}, T.Covers v.lock k → T.Covers p k :=
    fun hk => hT.covers_above hp hv.mem hlevel hcov hv.coversAdd hk
  have hne : p ≠ v.lock := by
    rintro rfl
    omega
  have hat := (evolve_changesAt key value v hT hr).agree p hp hne
  have hpos : 0 < T.level p := by omega
  exact
    { mem := hnodes ▸ .inr hp
      layout := hparent.congr hat
      covers := hat.covers_iff.2 (hcovers hv.covers)
      coversAdd := by
        show (v.evolve key value r T).Covers p (v.split key value r fresh).1.highKey
        rw [hhigh]
        exact hat.covers_iff.2 (hcovers hmid)
      leaf := fun h0 => absurd (hat.level ▸ h0) hpos.ne'
      inner := fun _ => by
        simp only [SplitVars.next]
        rw [hself, hhigh, hnodes, hat.level, hrlevel, hrlow]
        exact ⟨.inl rfl, hlevel, rfl⟩
      side := fun _ d hd => by
        simp only [SplitVars.next] at hd ⊢
        rw [hat.kids] at hd
        rw [hat.kids_low d hd, hhigh]
        have hdlevel := hT.kid_level p hp d hd
        rcases hT.same_side hv.mem (hT.kid_mem p hp d hd) (by omega) hv.covers hmid with hle | hlt
        · exact .inl ⟨hle.trans hv.covers.1, hle.trans_lt hlow⟩
        · exact .inr hlt }

include hv hT hr hL hfull in
lemma Here.evolve_represents (hcopy : v.CopiesChildren) (htop : T.level v.lock < T.top)
    {M : Key → Option Value} (hM : T.Represents M) :
    (v.evolve key value r T).Represents (v.stores key value M) := by
  obtain ⟨hmid, hlow, hkid⟩ := hv.layout.mid hT hv.mem hL hfull
  have hT' := hT.splitAt hr hv.mem hmid hlow htop hkid
  have hrep := (hv.half hT hr hL hfull (fun _ => 0) hcopy).add_represents value hT'
    (hM.splitAt hr hv.mem)
  rw [evolve_eq fun _ => 0]
  unfold stores at hrep ⊢
  simpa only [halfNode_isLeaf] using hrep

end Split

/-! ### The split of the root -/

/-- The tree after the pass that splits the root: both halves are below a new root. -/
def growRoot (v : SplitVars L) (key : Key) (value : Value) (r root : Offset) (T : Tree) : Tree :=
  (v.evolve key value r (T.grow v.lock root)).addKid root r

section Root

variable {root : Offset} (hv : v.Here T key) (hT : T.Valid orphans) (hr : r ∉ T.nodes)
  (hroot : root ∉ T.nodes) (hne : r ≠ root) (htop : T.level v.lock = T.top)

include hv hT hroot in
lemma Here.grow : v.Here (T.grow v.lock root) key :=
  hv.congr ⟨fun _ hx => .inr hx, fun _ hx => (BLink.grow_of_mem hroot hx).1,
    fun _ hx => (BLink.grow_of_mem hroot hx).2.1⟩ (BLink.agreeAt_grow hT hroot hv.mem)

include hr hne in
lemma notMem_grow : r ∉ (T.grow v.lock root).nodes := by
  rintro (rfl | h)
  · exact hne rfl
  · exact hr h

variable (value) in
include hv hT hr hroot hne htop in
/-- What the tree says of the new root. -/
lemma Here.growRoot_root :
    root ∈ (v.growRoot key value r root T).nodes ∧
      (v.growRoot key value r root T).level root = (v.growRoot key value r root T).top ∧
      (v.growRoot key value r root T).top = T.top + 1 ∧
      (v.growRoot key value r root T).next root = none ∧
      (v.growRoot key value r root T).kids root = {v.lock, r} ∧
      (v.growRoot key value r root T).low v.lock =
        (v.growRoot key value r root T).low root := by
  have hrootlock : root ≠ v.lock := (ne_of_mem_of_not_mem hv.mem hroot).symm
  have hTg := hT.grow hroot hv.mem htop
  have hrg := notMem_grow (v := v) (T := T) hr hne
  have hat := (evolve_changesAt key value v hTg hrg).agree root
    (.inl rfl) hrootlock
  obtain ⟨hnodes, -, -, hevolve⟩ := evolve_shape v key value r (T.grow v.lock root)
  obtain ⟨hlevel, hlow, hnext, hkids, -⟩ := BLink.grow_self (T := T) (a := v.lock) (r := root)
  have hlock := (evolve_changesAt key value v hTg hrg).low v.lock
    (.inr hv.mem)
  have hmem : root ∈ (v.evolve key value r (T.grow v.lock root)).nodes := hnodes ▸ .inr (.inl rfl)
  refine ⟨hmem, hat.level.trans (hlevel.trans hevolve.symm), hevolve, hat.next.trans hnext, ?_, ?_⟩
  · ext x
    rw [growRoot, BLink.mem_addKid, hat.kids, hkids]
    simp [or_comm]
  · show (v.evolve key value r (T.grow v.lock root)).low v.lock =
      (v.evolve key value r (T.grow v.lock root)).low root
    rw [hlock, hat.low, hlow, (BLink.grow_of_mem hroot hv.mem).2.1, hT.low_top _ hv.mem htop]

variable (value) in
include hv hT hr hroot hne htop in
lemma Here.growRoot_changesAt : T.ChangesAt (v.growRoot key value r root T) v.lock := by
  have hTg := hT.grow hroot hv.mem htop
  have hrg := notMem_grow (v := v) (T := T) hr hne
  refine ((BLink.changesAt_grow hT hroot hv.mem htop).trans
    (evolve_changesAt key value v hTg hrg) (.inl rfl)).trans BLink.changesAt_addKid (.inr hroot)

variable (hL : 0 < L) (hfull : v.current.keyBuffSize = 2 * L) (hcopy : v.CopiesChildren)

variable (value) in
include hv hT hr hroot hne htop hL hfull hcopy in
lemma Here.growRoot_valid : (v.growRoot key value r root T).Valid (orphans \ v.orphan) := by
  have hTg := hT.grow hroot hv.mem htop
  have hrg := notMem_grow (v := v) (T := T) hr hne
  have hvg := hv.grow hT hroot
  have hlt : (T.grow v.lock root).level v.lock < (T.grow v.lock root).top := by
    rw [(BLink.grow_of_mem hroot hv.mem).1, htop]
    exact Nat.lt_succ_self _
  have hvalid := hvg.evolve_valid value hTg hrg hL hfull hcopy hlt
  obtain ⟨hnodes, hrlevel, hrlow, -⟩ := evolve_shape v key value r (T.grow v.lock root)
  obtain ⟨hmem, hlevel, hgrow, hnext, -⟩ := hv.growRoot_root value hT hr hroot hne htop
  have hadd := hvalid.addKid (p := root) (c := r) hmem (hnodes ▸ .inl rfl) (by
    rw [hrlevel, (BLink.grow_of_mem hroot hv.mem).1, htop]
    exact hlevel.trans hgrow) ⟨?_, fun b hb => absurd (hnext.symm.trans hb) (by simp)⟩
  · have hro : r ∉ orphans := fun h => hr (hT.orphan_mem r h).1
    have hset : (Insert.insert r orphans \ v.orphan) \ {r} = orphans \ v.orphan := by
      ext x
      simp only [Set.mem_sdiff, Set.mem_insert_iff, Set.mem_singleton_iff]
      constructor
      · rintro ⟨⟨rfl | hx, hxv⟩, hxr⟩
        · exact absurd rfl hxr
        · exact ⟨hx, hxv⟩
      · rintro ⟨hx, hxv⟩
        exact ⟨⟨.inr hx, hxv⟩, fun h => hro (h ▸ hx)⟩
    exact hset ▸ hadd
  · have hbot := hvalid.low_top root hmem hlevel
    rw [hbot]
    exact bot_le

variable (value) in
include hv hT hr hroot hne htop hL hfull hcopy in
lemma Here.growRoot_layout (fresh : Memory) :
    Layout (v.growRoot key value r root T) v.lock (v.split key value r fresh).1 ∧
      Layout (v.growRoot key value r root T) r (v.split key value r fresh).2 := by
  have hTg := hT.grow hroot hv.mem htop
  have hrg := notMem_grow (v := v) (T := T) hr hne
  obtain ⟨hleft, hright⟩ := (hv.grow hT hroot).evolve_layout value hTg hrg hL hfull
    hcopy fresh
  obtain ⟨hnodes, -⟩ := evolve_shape v key value r (T.grow v.lock root)
  have hagree := (BLink.changesAt_addKid (T := v.evolve key value r (T.grow v.lock root))
    (p := root) (c := r)).agree
  refine ⟨hleft.congr (hagree _ (hnodes ▸ .inr (.inr hv.mem)) ?_),
    hright.congr (hagree _ (hnodes ▸ .inl rfl) hne)⟩
  exact ne_of_mem_of_not_mem hv.mem hroot

include hv hT hr hroot hne htop hL hfull hcopy in
lemma Here.growRoot_represents {M : Key → Option Value} (hM : T.Represents M) :
    (v.growRoot key value r root T).Represents (v.stores key value M) := by
  have hTg := hT.grow hroot hv.mem htop
  have hlt : (T.grow v.lock root).level v.lock < (T.grow v.lock root).top := by
    rw [(BLink.grow_of_mem hroot hv.mem).1, htop]
    exact Nat.lt_succ_self _
  exact ((hv.grow hT hroot).evolve_represents hTg (notMem_grow hr hne) hL hfull hcopy hlt
    (hM.grow hroot)).addKid

end Root

end SplitVars

end TiPI.BLinkTree
