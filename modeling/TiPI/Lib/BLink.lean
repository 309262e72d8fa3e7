import Mathlib.Data.Set.Finite.Basic
import Mathlib.Order.BoundedOrder.Basic

/-!
# B-link trees

A B-link tree of ordered keys, without layout: every node lies on a level, has the least key it is
responsible for and possibly a right neighbour on its level, whose least key bounds it from above.
Nodes of level 0 hold values, the others have kids one level below. A node that came out of a
split and is not yet among the kids of another is an orphan.
-/

namespace TiPI

structure BLink (κ α β : Type*) where
  nodes : Set α
  level : α → Nat
  low : α → κ
  next : α → Option α
  kids : α → Set α
  value : α → κ → Option β
  top : Nat

namespace BLink

variable {κ α β : Type*} [LinearOrder κ]

/-- The node is responsible for the key. -/
def Covers (T : BLink κ α β) (a : α) (k : κ) : Prop :=
  T.low a ≤ k ∧ ∀ b, T.next a = some b → k < T.low b

/-- The key has the value. -/
def Holds (T : BLink κ α β) (k : κ) (v : β) : Prop :=
  ∃ a ∈ T.nodes, T.level a = 0 ∧ T.value a k = some v

structure Valid [OrderBot κ] (T : BLink κ α β) (orphans : Set α) : Prop where
  finite : T.nodes.Finite
  level_le : ∀ a ∈ T.nodes, T.level a ≤ T.top
  low_top : ∀ a ∈ T.nodes, T.level a = T.top → T.low a = ⊥
  leftmost : ∀ n ≤ T.top, ∃ a ∈ T.nodes, T.level a = n ∧ T.low a = ⊥
  low_inj : ∀ a ∈ T.nodes, ∀ b ∈ T.nodes, T.level a = T.level b → T.low a = T.low b → a = b
  next_mem : ∀ a ∈ T.nodes, ∀ b, T.next a = some b → b ∈ T.nodes
  next_level : ∀ a ∈ T.nodes, ∀ b, T.next a = some b → T.level b = T.level a
  next_low : ∀ a ∈ T.nodes, ∀ b, T.next a = some b → T.low a < T.low b
  next_least : ∀ a ∈ T.nodes, ∀ b ∈ T.nodes, T.level a = T.level b → T.low a < T.low b →
    ∃ c, T.next a = some c ∧ T.low c ≤ T.low b
  kid_mem : ∀ p ∈ T.nodes, ∀ c ∈ T.kids p, c ∈ T.nodes
  kid_level : ∀ p ∈ T.nodes, ∀ c ∈ T.kids p, T.level p = T.level c + 1
  kid_covered : ∀ p ∈ T.nodes, ∀ c ∈ T.kids p, T.Covers p (T.low c)
  first_kid : ∀ p ∈ T.nodes, 0 < T.level p → ∃ c ∈ T.kids p, T.low c = T.low p
  value_covered : ∀ a ∈ T.nodes, ∀ k v, T.value a k = some v → T.Covers a k
  listed : ∀ c ∈ T.nodes, T.level c < T.top → c ∉ orphans → ∃ p ∈ T.nodes, c ∈ T.kids p
  orphan_mem : ∀ c ∈ orphans, c ∈ T.nodes ∧ T.level c < T.top
  orphan : ∀ p ∈ T.nodes, ∀ c ∈ T.kids p, c ∉ orphans

section Shape

variable [OrderBot κ] {T : BLink κ α β} {orphans : Set α} {a b c p : α} {k k' : κ} {v : β}

lemma Valid.covers_unique (hT : T.Valid orphans) (ha : a ∈ T.nodes) (hb : b ∈ T.nodes)
    (hlevel : T.level a = T.level b) (hak : T.Covers a k) (hbk : T.Covers b k) : a = b := by
  rcases lt_trichotomy (T.low a) (T.low b) with hlt | heq | hlt
  · obtain ⟨c, hc, hcb⟩ := hT.next_least a ha b hb hlevel hlt
    exact absurd (hcb.trans hbk.1) (not_le.2 (hak.2 c hc))
  · exact hT.low_inj a ha b hb hlevel heq
  · obtain ⟨c, hc, hca⟩ := hT.next_least b hb a ha hlevel.symm hlt
    exact absurd (hca.trans hak.1) (not_le.2 (hbk.2 c hc))

/-- A node whose least key is not greater than a key of `a` does not start inside `a`. -/
lemma Valid.low_le_low (hT : T.Valid orphans) (ha : a ∈ T.nodes) (hb : b ∈ T.nodes)
    (hlevel : T.level a = T.level b) (hak : T.Covers a k) (hbk : T.low b ≤ k) :
    T.low b ≤ T.low a := by
  by_contra hlt
  obtain ⟨c, hc, hcb⟩ := hT.next_least a ha b hb hlevel (not_le.1 hlt)
  exact absurd (hcb.trans hbk) (not_le.2 (hak.2 c hc))

/-- A node that starts behind a key of `a` starts behind all of them. -/
lemma Valid.lt_low_of_lt (hT : T.Valid orphans) (ha : a ∈ T.nodes) (hb : b ∈ T.nodes)
    (hlevel : T.level a = T.level b) (hak : T.Covers a k) (hbk : k < T.low b)
    (hak' : T.Covers a k') : k' < T.low b := by
  obtain ⟨c, hc, hcb⟩ := hT.next_least a ha b hb hlevel (hak.1.trans_lt hbk)
  exact (hak'.2 c hc).trans_le hcb

/-- The range of a node lies within the range of the node above that shares a key with it. -/
lemma Valid.covers_above (hT : T.Valid orphans) (hp : p ∈ T.nodes) (ha : a ∈ T.nodes)
    (hlevel : T.level p = T.level a + 1) (hpk : T.Covers p k) (hak : T.Covers a k)
    (hak' : T.Covers a k') : T.Covers p k' := by
  constructor
  · obtain ⟨c, hc, hlow⟩ := hT.first_kid p hp (by omega)
    have hca := hT.low_le_low ha (hT.kid_mem p hp c hc)
      (by have := hT.kid_level p hp c hc; omega) hak (hlow ▸ hpk.1)
    exact (hlow ▸ hca).trans hak'.1
  · intro q hq
    have hqp := hT.next_level p hp q hq
    have hqT := hT.next_mem p hp q hq
    obtain ⟨d, hd, hlow⟩ := hT.first_kid q hqT (by omega)
    exact hlow ▸ hT.lt_low_of_lt ha (hT.kid_mem q hqT d hd)
      (by have := hT.kid_level q hqT d hd; omega) hak (hlow ▸ hpk.2 q hq) hak'

/-- The node above that starts in front of a key of `a` starts in front of all of them. -/
lemma Valid.low_above_le (hT : T.Valid orphans) (hp : p ∈ T.nodes) (ha : a ∈ T.nodes)
    (hlevel : T.level p = T.level a + 1) (hpk : T.low p ≤ k) (hak : T.Covers a k) :
    T.low p ≤ T.low a := by
  obtain ⟨c, hc, hlow⟩ := hT.first_kid p hp (by omega)
  have hca := hT.low_le_low ha (hT.kid_mem p hp c hc)
    (by have := hT.kid_level p hp c hc; omega) hak (hlow ▸ hpk)
  exact hlow ▸ hca

/-- No two keys of a node have a sibling's start between them. -/
lemma Valid.same_side (hT : T.Valid orphans) (ha : a ∈ T.nodes) (hb : b ∈ T.nodes)
    (hlevel : T.level a = T.level b) (hak : T.Covers a k) (hak' : T.Covers a k') :
    T.low b ≤ T.low a ∨ (k < T.low b ∧ k' < T.low b) := by
  by_cases hbk : T.low b ≤ k
  · exact .inl (hT.low_le_low ha hb hlevel hak hbk)
  · have hlt := not_le.1 hbk
    exact .inr ⟨hlt, hT.lt_low_of_lt ha hb hlevel hak hlt hak'⟩

lemma Valid.covers_low (hT : T.Valid orphans) (ha : a ∈ T.nodes) : T.Covers a (T.low a) :=
  ⟨le_rfl, hT.next_low a ha⟩

/-- The value of a key is in the node of level 0 that is responsible for it. -/
lemma Valid.holds_iff (hT : T.Valid orphans) (ha : a ∈ T.nodes) (ha0 : T.level a = 0)
    (hak : T.Covers a k) : T.Holds k v ↔ T.value a k = some v := by
  constructor
  · rintro ⟨b, hb, hb0, hbv⟩
    obtain rfl := hT.covers_unique ha hb (ha0.trans hb0.symm) hak
      (hT.value_covered b hb k v hbv)
    exact hbv
  · intro h
    exact ⟨a, ha, ha0, h⟩

end Shape

/-- The tree of one empty node. -/
def single [OrderBot κ] (a : α) : BLink κ α β where
  nodes := {a}
  level _ := 0
  low _ := ⊥
  next _ := none
  kids _ := ∅
  value _ _ := none
  top := 0

lemma valid_single [OrderBot κ] (a : α) : (single a : BLink κ α β).Valid ∅ where
  finite := Set.finite_singleton a
  level_le _ _ := le_rfl
  low_top _ _ _ := rfl
  leftmost n hn := ⟨a, rfl, (Nat.le_zero.1 hn).symm, rfl⟩
  low_inj x hx y hy _ _ := Eq.trans (b := a) hx (Eq.symm hy)
  next_mem _ _ _ h := absurd h (by simp [single])
  next_level _ _ _ h := absurd h (by simp [single])
  next_low _ _ _ h := absurd h (by simp [single])
  next_least _ _ _ _ _ h := absurd h (lt_irrefl _)
  kid_mem _ _ _ h := h.elim
  kid_level _ _ _ h := h.elim
  kid_covered _ _ _ h := h.elim
  first_kid _ _ h := absurd h (Nat.lt_irrefl 0)
  value_covered _ _ _ _ h := absurd h (by simp [single])
  listed _ _ h := absurd h (Nat.lt_irrefl 0)
  orphan_mem _ h := h.elim
  orphan _ _ _ h := h.elim

/-! ### Operations -/

section Operations

variable [DecidableEq α]

/-- Stores a value in a node. -/
def put (T : BLink κ α β) (a : α) (k : κ) (v : β) : BLink κ α β :=
  { T with value := Function.update T.value a (Function.update (T.value a) k (some v)) }

/-- Lists an orphan. -/
def addKid (T : BLink κ α β) (p c : α) : BLink κ α β :=
  { T with kids := Function.update T.kids p (insert c (T.kids p)) }

/-- Moves what is at or above `h` from node `a` to a new right neighbour `r`. -/
def splitAt (T : BLink κ α β) (a r : α) (h : κ) : BLink κ α β where
  nodes := insert r T.nodes
  level := Function.update T.level r (T.level a)
  low := Function.update T.low r h
  next := Function.update (Function.update T.next r (T.next a)) a (some r)
  kids := Function.update (Function.update T.kids r {c ∈ T.kids a | h ≤ T.low c}) a
    {c ∈ T.kids a | T.low c < h}
  value := Function.update (Function.update T.value r fun k => if h ≤ k then T.value a k else none)
    a fun k => if k < h then T.value a k else none
  top := T.top

/-- A new root above the old one. -/
def grow [OrderBot κ] (T : BLink κ α β) (a root : α) : BLink κ α β where
  nodes := insert root T.nodes
  level := Function.update T.level root (T.top + 1)
  low := Function.update T.low root ⊥
  next := Function.update T.next root none
  kids := Function.update T.kids root {a}
  value := Function.update T.value root fun _ => none
  top := T.top + 1

variable {T : BLink κ α β} {orphans : Set α} {a b c p r x : α} {k h : κ} {v : β}

omit [LinearOrder κ] in
@[simp] lemma mem_addKid : x ∈ (T.addKid p c).kids b ↔ b = p ∧ x = c ∨ x ∈ T.kids b := by
  by_cases hb : b = p
  · simp [addKid, hb]
  · simp [addKid, hb]

@[simp] lemma covers_put (k' : κ) : (T.put a k v).Covers x k' ↔ T.Covers x k' := Iff.rfl

@[simp] lemma covers_addKid : (T.addKid p c).Covers x k ↔ T.Covers x k := Iff.rfl

section Split

lemma splitAt_level (hr : r ∉ T.nodes) (hx : x ∈ T.nodes) :
    (T.splitAt a r h).level x = T.level x :=
  Function.update_of_ne (ne_of_mem_of_not_mem hx hr) _ _

@[simp] lemma splitAt_level_right : (T.splitAt a r h).level r = T.level a :=
  Function.update_self ..

lemma splitAt_low (hr : r ∉ T.nodes) (hx : x ∈ T.nodes) : (T.splitAt a r h).low x = T.low x :=
  Function.update_of_ne (ne_of_mem_of_not_mem hx hr) _ _

@[simp] lemma splitAt_low_right : (T.splitAt a r h).low r = h := Function.update_self ..

@[simp] lemma splitAt_next_self : (T.splitAt a r h).next a = some r := Function.update_self ..

lemma splitAt_next_right (har : r ≠ a) : (T.splitAt a r h).next r = T.next a := by
  simp [splitAt, har]

lemma splitAt_next (hxa : x ≠ a) (hxr : x ≠ r) : (T.splitAt a r h).next x = T.next x := by
  simp [splitAt, hxa, hxr]

@[simp] lemma splitAt_kids_self :
    (T.splitAt a r h).kids a = {c ∈ T.kids a | T.low c < h} := Function.update_self ..

lemma splitAt_kids_right (har : r ≠ a) :
    (T.splitAt a r h).kids r = {c ∈ T.kids a | h ≤ T.low c} := by
  simp [splitAt, har]

lemma splitAt_kids (hxa : x ≠ a) (hxr : x ≠ r) : (T.splitAt a r h).kids x = T.kids x := by
  simp [splitAt, hxa, hxr]

@[simp] lemma splitAt_value_self :
    (T.splitAt a r h).value a k = if k < h then T.value a k else none := by
  simp [splitAt]

lemma splitAt_value_right (har : r ≠ a) :
    (T.splitAt a r h).value r k = if h ≤ k then T.value a k else none := by
  simp [splitAt, har]

lemma splitAt_value (hxa : x ≠ a) (hxr : x ≠ r) : (T.splitAt a r h).value x = T.value x := by
  simp [splitAt, hxa, hxr]

lemma covers_splitAt_self (hr : r ∉ T.nodes) (ha : a ∈ T.nodes) (hah : T.Covers a h) :
    (T.splitAt a r h).Covers a k ↔ T.Covers a k ∧ k < h := by
  simp only [Covers, splitAt_low hr ha, splitAt_next_self, Option.some.injEq, forall_eq',
    splitAt_low_right]
  constructor
  · rintro ⟨hle, hlt⟩
    exact ⟨⟨hle, fun b hb => hlt.trans (hah.2 b hb)⟩, hlt⟩
  · rintro ⟨⟨hle, _⟩, hlt⟩
    exact ⟨hle, hlt⟩

variable [OrderBot κ]

lemma covers_splitAt (hT : T.Valid orphans) (hr : r ∉ T.nodes) (hx : x ∈ T.nodes) (hxa : x ≠ a) :
    (T.splitAt a r h).Covers x k ↔ T.Covers x k := by
  simp only [Covers, splitAt_low hr hx, splitAt_next hxa (ne_of_mem_of_not_mem hx hr)]
  refine and_congr_right fun _ => forall₂_congr fun b hb => ?_
  rw [splitAt_low hr (hT.next_mem x hx b hb)]

lemma covers_splitAt_right (hT : T.Valid orphans) (hr : r ∉ T.nodes) (ha : a ∈ T.nodes)
    (hah : T.Covers a h) : (T.splitAt a r h).Covers r k ↔ T.Covers a k ∧ h ≤ k := by
  simp only [Covers, splitAt_low_right, splitAt_next_right (ne_of_mem_of_not_mem ha hr).symm]
  constructor
  · rintro ⟨hle, hlt⟩
    refine ⟨⟨hah.1.trans hle, fun b hb => ?_⟩, hle⟩
    rw [← splitAt_low hr (hT.next_mem a ha b hb)]
    exact hlt b hb
  · rintro ⟨⟨_, hlt⟩, hle⟩
    refine ⟨hle, fun b hb => ?_⟩
    rw [splitAt_low hr (hT.next_mem a ha b hb)]
    exact hlt b hb

end Split

variable [OrderBot κ]

lemma Valid.put (hT : T.Valid orphans) (hak : T.Covers a k) : (T.put a k v).Valid orphans where
  finite := hT.finite
  level_le := hT.level_le
  low_top := hT.low_top
  leftmost := hT.leftmost
  low_inj := hT.low_inj
  next_mem := hT.next_mem
  next_level := hT.next_level
  next_low := hT.next_low
  next_least := hT.next_least
  kid_mem := hT.kid_mem
  kid_level := hT.kid_level
  kid_covered := hT.kid_covered
  first_kid := hT.first_kid
  value_covered x hx k' v' hv := by
    simp only [BLink.put, Function.update_apply] at hv
    split_ifs at hv with hxa
    · rw [Function.update_apply] at hv
      split_ifs at hv with hk
      · subst hxa hk
        exact hak
      · subst hxa
        exact hT.value_covered x hx k' v' hv
    · exact hT.value_covered x hx k' v' hv
  listed := hT.listed
  orphan_mem := hT.orphan_mem
  orphan := hT.orphan

lemma Valid.addKid (hT : T.Valid orphans) (hp : p ∈ T.nodes) (hc : c ∈ T.nodes)
    (hlevel : T.level p = T.level c + 1) (hpc : T.Covers p (T.low c)) :
    (T.addKid p c).Valid (orphans \ {c}) where
  finite := hT.finite
  level_le := hT.level_le
  low_top := hT.low_top
  leftmost := hT.leftmost
  low_inj := hT.low_inj
  next_mem := hT.next_mem
  next_level := hT.next_level
  next_low := hT.next_low
  next_least := hT.next_least
  kid_mem x hx d hd := by
    rcases mem_addKid.1 hd with ⟨-, rfl⟩ | hd
    · exact hc
    · exact hT.kid_mem x hx d hd
  kid_level x hx d hd := by
    rcases mem_addKid.1 hd with ⟨rfl, rfl⟩ | hd
    · exact hlevel
    · exact hT.kid_level x hx d hd
  kid_covered x hx d hd := by
    rcases mem_addKid.1 hd with ⟨rfl, rfl⟩ | hd
    · exact hpc
    · exact hT.kid_covered x hx d hd
  first_kid x hx h0 := by
    obtain ⟨d, hd, hlow⟩ := hT.first_kid x hx h0
    exact ⟨d, mem_addKid.2 (.inr hd), hlow⟩
  value_covered := hT.value_covered
  listed d hd hlt hno := by
    by_cases hdc : d = c
    · exact ⟨p, hp, mem_addKid.2 (.inl ⟨rfl, hdc⟩)⟩
    · obtain ⟨q, hq, hdq⟩ := hT.listed d hd hlt fun ho => hno ⟨ho, hdc⟩
      exact ⟨q, hq, mem_addKid.2 (.inr hdq)⟩
  orphan_mem d hd := hT.orphan_mem d hd.1
  orphan x hx d hd := by
    rcases mem_addKid.1 hd with ⟨-, rfl⟩ | hd
    · exact fun ho => ho.2 rfl
    · exact fun ho => hT.orphan x hx d hd ho.1

section Split

variable (hT : T.Valid orphans) (hr : r ∉ T.nodes) (ha : a ∈ T.nodes) (hah : T.Covers a h)
include hT hr ha hah

/-- The kids of a half are kids of the node that was split. -/
lemma Valid.splitAt_kid (hx : x ∈ insert r T.nodes) (hc : c ∈ (T.splitAt a r h).kids x) :
    c ∈ T.nodes ∧ (T.splitAt a r h).level x = (T.splitAt a r h).level c + 1 ∧
      (T.splitAt a r h).Covers x ((T.splitAt a r h).low c) ∧ c ∉ insert r orphans := by
  have har : r ≠ a := (ne_of_mem_of_not_mem ha hr).symm
  have hgo : ∀ p ∈ T.nodes, ∀ c ∈ T.kids p, c ∈ T.nodes ∧
      T.level p = (T.splitAt a r h).level c + 1 ∧ (T.splitAt a r h).low c = T.low c ∧
      T.Covers p (T.low c) ∧ c ∉ insert r orphans := by
    intro p hp c hc
    have hcT := hT.kid_mem p hp c hc
    refine ⟨hcT, ?_, splitAt_low hr hcT, hT.kid_covered p hp c hc, ?_⟩
    · rw [splitAt_level hr hcT]
      exact hT.kid_level p hp c hc
    · rw [Set.mem_insert_iff, not_or]
      exact ⟨ne_of_mem_of_not_mem hcT hr, hT.orphan p hp c hc⟩
  rcases hx with rfl | hx
  · rw [splitAt_kids_right har] at hc
    obtain ⟨hcT, hlevel, hlow, hcov, ho⟩ := hgo a ha c hc.1
    rw [splitAt_level_right, hlow, covers_splitAt_right hT hr ha hah]
    exact ⟨hcT, hlevel, ⟨hcov, hc.2⟩, ho⟩
  · rw [splitAt_level hr hx]
    by_cases hxa : x = a
    · subst hxa
      rw [splitAt_kids_self] at hc
      obtain ⟨hcT, hlevel, hlow, hcov, ho⟩ := hgo x hx c hc.1
      rw [hlow, covers_splitAt_self hr hx hah]
      exact ⟨hcT, hlevel, ⟨hcov, hc.2⟩, ho⟩
    · rw [splitAt_kids hxa (ne_of_mem_of_not_mem hx hr)] at hc
      obtain ⟨hcT, hlevel, hlow, hcov, ho⟩ := hgo x hx c hc
      rw [hlow, covers_splitAt hT hr hx hxa]
      exact ⟨hcT, hlevel, hcov, ho⟩

/-- Links lead to nodes of the same level with greater keys. -/
lemma Valid.splitAt_link (hlt : T.low a < h) (hx : x ∈ insert r T.nodes)
    (hb : (T.splitAt a r h).next x = some b) :
    b ∈ insert r T.nodes ∧ (T.splitAt a r h).level b = (T.splitAt a r h).level x ∧
      (T.splitAt a r h).low x < (T.splitAt a r h).low b := by
  have har : r ≠ a := (ne_of_mem_of_not_mem ha hr).symm
  rcases hx with rfl | hx
  · rw [splitAt_next_right har] at hb
    have hbT := hT.next_mem a ha b hb
    rw [splitAt_level_right, splitAt_level hr hbT, splitAt_low_right, splitAt_low hr hbT]
    exact ⟨.inr hbT, hT.next_level a ha b hb, hah.2 b hb⟩
  · rw [splitAt_level hr hx, splitAt_low hr hx]
    by_cases hxa : x = a
    · rw [hxa, splitAt_next_self, Option.some.injEq] at hb
      rw [← hb, splitAt_level_right, splitAt_low_right, hxa]
      exact ⟨.inl rfl, rfl, hlt⟩
    · rw [splitAt_next hxa (ne_of_mem_of_not_mem hx hr)] at hb
      have hbT := hT.next_mem x hx b hb
      rw [splitAt_level hr hbT, splitAt_low hr hbT]
      exact ⟨.inr hbT, hT.next_level x hx b hb, hT.next_low x hx b hb⟩

/-- Between a node and the one it is linked to there is no node of the level. -/
lemma Valid.splitAt_next_least (hlt : T.low a < h) {y : α} (hx : x ∈ insert r T.nodes)
    (hy : y ∈ insert r T.nodes) (hlevel : (T.splitAt a r h).level x = (T.splitAt a r h).level y)
    (hlow : (T.splitAt a r h).low x < (T.splitAt a r h).low y) :
    ∃ c, (T.splitAt a r h).next x = some c ∧
      (T.splitAt a r h).low c ≤ (T.splitAt a r h).low y := by
  have har : r ≠ a := (ne_of_mem_of_not_mem ha hr).symm
  rcases hx with rfl | hx <;> rcases hy with rfl | hy
  · exact absurd hlow (lt_irrefl _)
  · rw [splitAt_level_right, splitAt_level hr hy] at hlevel
    rw [splitAt_low_right, splitAt_low hr hy] at hlow
    obtain ⟨c, hc, hcy⟩ := hT.next_least a ha y hy hlevel (hlt.trans hlow)
    refine ⟨c, by rw [splitAt_next_right har, hc], ?_⟩
    rwa [splitAt_low hr (hT.next_mem a ha c hc), splitAt_low hr hy]
  · rw [splitAt_level_right, splitAt_level hr hx] at hlevel
    rw [splitAt_low_right, splitAt_low hr hx] at hlow
    by_cases hxa : x = a
    · exact ⟨y, by rw [hxa, splitAt_next_self], le_rfl⟩
    · have hle := hT.low_le_low ha hx hlevel.symm hah hlow.le
      obtain ⟨c, hc, hca⟩ := hT.next_least x hx a ha hlevel
        (lt_of_le_of_ne hle fun e => hxa (hT.low_inj x hx a ha hlevel e))
      refine ⟨c, by rw [splitAt_next hxa (ne_of_mem_of_not_mem hx hr), hc], ?_⟩
      rw [splitAt_low hr (hT.next_mem x hx c hc), splitAt_low_right]
      exact hca.trans hlt.le
  · rw [splitAt_level hr hx, splitAt_level hr hy] at hlevel
    rw [splitAt_low hr hx, splitAt_low hr hy] at hlow
    rw [splitAt_low hr hy]
    by_cases hxa : x = a
    · subst hxa
      refine ⟨r, splitAt_next_self, ?_⟩
      rw [splitAt_low_right]
      by_contra hyh
      exact absurd (hT.low_le_low hx hy hlevel hah (not_le.1 hyh).le) (not_le.2 hlow)
    · obtain ⟨c, hc, hcy⟩ := hT.next_least x hx y hy hlevel hlow
      refine ⟨c, by rw [splitAt_next hxa (ne_of_mem_of_not_mem hx hr), hc], ?_⟩
      rwa [splitAt_low hr (hT.next_mem x hx c hc)]

end Split

lemma Valid.splitAt (hT : T.Valid orphans) (hr : r ∉ T.nodes) (ha : a ∈ T.nodes)
    (hah : T.Covers a h) (hlt : T.low a < h) (htop : T.level a < T.top)
    (hkid : 0 < T.level a → ∃ c ∈ T.kids a, T.low c = h) :
    (T.splitAt a r h).Valid (insert r orphans) := by
  have har : r ≠ a := (ne_of_mem_of_not_mem ha hr).symm
  refine
    { finite := hT.finite.insert r
      level_le := ?level_le, low_top := ?low_top, leftmost := ?leftmost, low_inj := ?low_inj
      next_mem := fun x hx b hb => (hT.splitAt_link hr ha hah hlt hx hb).1
      next_level := fun x hx b hb => (hT.splitAt_link hr ha hah hlt hx hb).2.1
      next_low := fun x hx b hb => (hT.splitAt_link hr ha hah hlt hx hb).2.2
      next_least := fun x hx y hy => hT.splitAt_next_least hr ha hah hlt hx hy
      kid_mem := fun p hp c hc => .inr (hT.splitAt_kid hr ha hah hp hc).1
      kid_level := fun p hp c hc => (hT.splitAt_kid hr ha hah hp hc).2.1
      kid_covered := fun p hp c hc => (hT.splitAt_kid hr ha hah hp hc).2.2.1
      first_kid := ?first_kid, value_covered := ?value_covered, listed := ?listed
      orphan_mem := ?orphan_mem
      orphan := fun p hp c hc => (hT.splitAt_kid hr ha hah hp hc).2.2.2 }
  case level_le =>
    rintro x (rfl | hx)
    · rw [splitAt_level_right]
      exact hT.level_le a ha
    · rw [splitAt_level hr hx]
      exact hT.level_le x hx
  case low_top =>
    rintro x (rfl | hx) htop'
    · rw [splitAt_level_right] at htop'
      exact absurd htop' htop.ne
    · rw [splitAt_level hr hx] at htop'
      rw [splitAt_low hr hx]
      exact hT.low_top x hx htop'
  case leftmost =>
    intro n hn
    obtain ⟨x, hx, hlevel, hlow⟩ := hT.leftmost n hn
    exact ⟨x, .inr hx, (splitAt_level hr hx).trans hlevel, (splitAt_low hr hx).trans hlow⟩
  case low_inj =>
    -- `h` is the least key of no old node of the level
    have hnew : ∀ x ∈ T.nodes, T.level a = T.level x → h ≠ T.low x := by
      intro x hx hlevel hlow
      obtain rfl := hT.covers_unique ha hx hlevel hah (hlow ▸ hT.covers_low hx)
      exact hlt.ne' hlow
    rintro x (rfl | hx) y (rfl | hy) hlevel hlow
    · rfl
    · rw [splitAt_level_right, splitAt_level hr hy] at hlevel
      rw [splitAt_low_right, splitAt_low hr hy] at hlow
      exact absurd hlow (hnew y hy hlevel)
    · rw [splitAt_level_right, splitAt_level hr hx] at hlevel
      rw [splitAt_low_right, splitAt_low hr hx] at hlow
      exact absurd hlow.symm (hnew x hx hlevel.symm)
    · rw [splitAt_level hr hx, splitAt_level hr hy] at hlevel
      rw [splitAt_low hr hx, splitAt_low hr hy] at hlow
      exact hT.low_inj x hx y hy hlevel hlow
  case first_kid =>
    rintro x (rfl | hx) h0
    · rw [splitAt_level_right] at h0
      obtain ⟨c, hc, hlow⟩ := hkid h0
      refine ⟨c, ?_, ?_⟩
      · rw [splitAt_kids_right har]
        exact ⟨hc, hlow.ge⟩
      · rw [splitAt_low_right, splitAt_low hr (hT.kid_mem a ha c hc), hlow]
    · rw [splitAt_level hr hx] at h0
      obtain ⟨c, hc, hlow⟩ := hT.first_kid x hx h0
      refine ⟨c, ?_, ?_⟩
      · by_cases hxa : x = a
        · subst hxa
          rw [splitAt_kids_self]
          exact ⟨hc, hlow ▸ hlt⟩
        · rwa [splitAt_kids hxa (ne_of_mem_of_not_mem hx hr)]
      · rw [splitAt_low hr hx, splitAt_low hr (hT.kid_mem x hx c hc), hlow]
  case value_covered =>
    rintro x (rfl | hx) k v hv
    · rw [splitAt_value_right har, Option.ite_none_right_eq_some] at hv
      exact (covers_splitAt_right hT hr ha hah).2 ⟨hT.value_covered a ha k v hv.2, hv.1⟩
    · by_cases hxa : x = a
      · subst hxa
        rw [splitAt_value_self, Option.ite_none_right_eq_some] at hv
        exact (covers_splitAt_self hr hx hah).2 ⟨hT.value_covered x hx k v hv.2, hv.1⟩
      · rw [splitAt_value hxa (ne_of_mem_of_not_mem hx hr)] at hv
        exact (covers_splitAt hT hr hx hxa).2 (hT.value_covered x hx k v hv)
  case listed =>
    rintro c (rfl | hc) hlevel ho
    · exact absurd (Set.mem_insert _ _) ho
    · rw [splitAt_level hr hc] at hlevel
      obtain ⟨p, hp, hcp⟩ := hT.listed c hc hlevel fun h' => ho (.inr h')
      by_cases hpa : p = a
      · subst hpa
        by_cases hch : T.low c < h
        · exact ⟨p, .inr hp, by rw [splitAt_kids_self]; exact ⟨hcp, hch⟩⟩
        · exact ⟨r, .inl rfl, by rw [splitAt_kids_right har]; exact ⟨hcp, not_lt.1 hch⟩⟩
      · exact ⟨p, .inr hp, by rwa [splitAt_kids hpa (ne_of_mem_of_not_mem hp hr)]⟩
  case orphan_mem =>
    rintro c (rfl | hc)
    · exact ⟨.inl rfl, by rwa [splitAt_level_right]⟩
    · obtain ⟨hcT, hlevel⟩ := hT.orphan_mem c hc
      exact ⟨.inr hcT, by rwa [splitAt_level hr hcT]⟩

section Grow

lemma grow_of_mem (hr : r ∉ T.nodes) (hx : x ∈ T.nodes) :
    (T.grow a r).level x = T.level x ∧ (T.grow a r).low x = T.low x ∧
    (T.grow a r).next x = T.next x ∧ (T.grow a r).kids x = T.kids x ∧
    (T.grow a r).value x = T.value x := by
  have hxr := ne_of_mem_of_not_mem hx hr
  simp [grow, hxr]

@[simp] lemma grow_self :
    (T.grow a r).level r = T.top + 1 ∧ (T.grow a r).low r = ⊥ ∧ (T.grow a r).next r = none ∧
    (T.grow a r).kids r = {a} ∧ (T.grow a r).value r = fun _ => none := by
  simp [grow]

lemma covers_grow (hT : T.Valid orphans) (hr : r ∉ T.nodes) (hx : x ∈ T.nodes) :
    (T.grow a r).Covers x k ↔ T.Covers x k := by
  obtain ⟨-, hlow, hnext, -⟩ := grow_of_mem (a := a) hr hx
  simp only [Covers, hlow, hnext]
  refine and_congr_right fun _ => forall₂_congr fun b hb => ?_
  rw [(grow_of_mem hr (hT.next_mem x hx b hb)).2.1]

lemma covers_grow_self : (T.grow a r).Covers r k := by
  simp [Covers]

end Grow

/-- The kids are those of before, and the old root below the new one. -/
lemma Valid.grow_kid (hT : T.Valid orphans) (hr : r ∉ T.nodes) (ha : a ∈ T.nodes)
    (htop : T.level a = T.top) (hp : p ∈ insert r T.nodes) (hc : c ∈ (T.grow a r).kids p) :
    c ∈ T.nodes ∧ (T.grow a r).level p = (T.grow a r).level c + 1 ∧
      (T.grow a r).Covers p ((T.grow a r).low c) ∧ c ∉ orphans := by
  obtain ⟨hrlevel, -, -, hrkids, -⟩ := grow_self (T := T) (a := a) (r := r)
  rcases hp with rfl | hp
  · obtain rfl : c = a := by simpa [hrkids] using hc
    rw [hrlevel, (grow_of_mem hr ha).1, htop]
    exact ⟨ha, rfl, covers_grow_self, fun ho => absurd htop (hT.orphan_mem c ho).2.ne⟩
  · obtain ⟨hlevel, -, -, hkids, -⟩ := grow_of_mem (a := a) hr hp
    rw [hkids] at hc
    have hcT := hT.kid_mem p hp c hc
    obtain ⟨hclevel, hclow, -⟩ := grow_of_mem (a := a) hr hcT
    rw [hlevel, hclevel, covers_grow hT hr hp, hclow]
    exact ⟨hcT, hT.kid_level p hp c hc, hT.kid_covered p hp c hc, hT.orphan p hp c hc⟩

lemma Valid.grow_link (hT : T.Valid orphans) (hr : r ∉ T.nodes) (hx : x ∈ insert r T.nodes)
    (hb : (T.grow a r).next x = some b) :
    b ∈ T.nodes ∧ (T.grow a r).level b = (T.grow a r).level x ∧
      (T.grow a r).low x < (T.grow a r).low b := by
  rcases hx with rfl | hx
  · exact absurd hb (by simp)
  · obtain ⟨hlevel, hlow, hnext, -⟩ := grow_of_mem (a := a) hr hx
    rw [hnext] at hb
    have hbT := hT.next_mem x hx b hb
    obtain ⟨hblevel, hblow, -⟩ := grow_of_mem (a := a) hr hbT
    rw [hlevel, hlow, hblevel, hblow]
    exact ⟨hbT, hT.next_level x hx b hb, hT.next_low x hx b hb⟩

lemma Valid.grow (hT : T.Valid orphans) (hr : r ∉ T.nodes) (ha : a ∈ T.nodes)
    (htop : T.level a = T.top) : (T.grow a r).Valid orphans := by
  obtain ⟨hrlevel, hrlow, -⟩ := grow_self (T := T) (a := a) (r := r)
  have hlevel : ∀ x ∈ T.nodes, (T.grow a r).level x = T.level x := fun x hx => (grow_of_mem hr hx).1
  have hlow : ∀ x ∈ T.nodes, (T.grow a r).low x = T.low x := fun x hx => (grow_of_mem hr hx).2.1
  have hnext : ∀ x ∈ T.nodes, (T.grow a r).next x = T.next x :=
    fun x hx => (grow_of_mem hr hx).2.2.1
  have hkids : ∀ x ∈ T.nodes, (T.grow a r).kids x = T.kids x :=
    fun x hx => (grow_of_mem hr hx).2.2.2.1
  have hvalue : ∀ x ∈ T.nodes, (T.grow a r).value x = T.value x :=
    fun x hx => (grow_of_mem hr hx).2.2.2.2
  -- the new root is alone on its level
  have hne : ∀ x ∈ T.nodes, T.level x ≠ T.top + 1 := fun x hx => by
    have := hT.level_le x hx
    omega
  refine
    { finite := hT.finite.insert r
      level_le := ?level_le, low_top := ?low_top, leftmost := ?leftmost, low_inj := ?low_inj
      next_mem := fun x hx b hb => .inr (hT.grow_link hr hx hb).1
      next_level := fun x hx b hb => (hT.grow_link hr hx hb).2.1
      next_low := fun x hx b hb => (hT.grow_link hr hx hb).2.2
      next_least := ?next_least
      kid_mem := fun p hp c hc => .inr (hT.grow_kid hr ha htop hp hc).1
      kid_level := fun p hp c hc => (hT.grow_kid hr ha htop hp hc).2.1
      kid_covered := fun p hp c hc => (hT.grow_kid hr ha htop hp hc).2.2.1
      first_kid := ?first_kid, value_covered := ?value_covered, listed := ?listed
      orphan_mem := ?orphan_mem
      orphan := fun p hp c hc => (hT.grow_kid hr ha htop hp hc).2.2.2 }
  case level_le =>
    rintro x (rfl | hx)
    · exact hrlevel.le
    · rw [hlevel x hx]
      exact (hT.level_le x hx).trans (Nat.le_succ _)
  case low_top =>
    rintro x (rfl | hx) hx'
    · exact hrlow
    · rw [hlevel x hx] at hx'
      exact absurd hx' (hne x hx)
  case leftmost =>
    intro n hn
    rcases Nat.lt_or_eq_of_le hn with hn | rfl
    · obtain ⟨x, hx, hxlevel, hxlow⟩ := hT.leftmost n (Nat.le_of_lt_succ hn)
      exact ⟨x, .inr hx, (hlevel x hx).trans hxlevel, (hlow x hx).trans hxlow⟩
    · exact ⟨r, .inl rfl, hrlevel, hrlow⟩
  case low_inj =>
    rintro x (rfl | hx) y (rfl | hy) hxy hxy'
    · rfl
    · rw [hrlevel, hlevel y hy] at hxy
      exact absurd hxy.symm (hne y hy)
    · rw [hrlevel, hlevel x hx] at hxy
      exact absurd hxy (hne x hx)
    · rw [hlevel x hx, hlevel y hy] at hxy
      rw [hlow x hx, hlow y hy] at hxy'
      exact hT.low_inj x hx y hy hxy hxy'
  case next_least =>
    rintro x (rfl | hx) y (rfl | hy) hxy hxy'
    · exact absurd hxy' (lt_irrefl _)
    · rw [hrlevel, hlevel y hy] at hxy
      exact absurd hxy.symm (hne y hy)
    · rw [hrlevel, hlevel x hx] at hxy
      exact absurd hxy (hne x hx)
    · rw [hlevel x hx, hlevel y hy] at hxy
      rw [hlow x hx, hlow y hy] at hxy'
      obtain ⟨c, hc, hcy⟩ := hT.next_least x hx y hy hxy hxy'
      refine ⟨c, by rw [hnext x hx, hc], ?_⟩
      rwa [hlow c (hT.next_mem x hx c hc), hlow y hy]
  case first_kid =>
    rintro p (rfl | hp) h0
    · exact ⟨a, by simp, by rw [hlow a ha, hrlow, hT.low_top a ha htop]⟩
    · rw [hlevel p hp] at h0
      obtain ⟨c, hc, hclow⟩ := hT.first_kid p hp h0
      exact ⟨c, by rwa [hkids p hp],
        by rw [hlow p hp, hlow c (hT.kid_mem p hp c hc), hclow]⟩
  case value_covered =>
    rintro x (rfl | hx) k v hv
    · exact absurd hv (by simp)
    · rw [hvalue x hx] at hv
      exact (covers_grow hT hr hx).2 (hT.value_covered x hx k v hv)
  case listed =>
    rintro c (rfl | hc) hclevel ho
    · rw [hrlevel] at hclevel
      exact absurd hclevel (lt_irrefl _)
    · rw [hlevel c hc] at hclevel
      rcases Nat.lt_or_eq_of_le (Nat.le_of_lt_succ hclevel) with hlt | heq
      · obtain ⟨p, hp, hcp⟩ := hT.listed c hc hlt ho
        exact ⟨p, .inr hp, by rwa [hkids p hp]⟩
      · obtain rfl := hT.low_inj c hc a ha (heq.trans htop.symm)
          ((hT.low_top c hc heq).trans (hT.low_top a ha htop).symm)
        exact ⟨r, .inl rfl, by simp⟩
  case orphan_mem =>
    intro c hc
    obtain ⟨hcT, hclevel⟩ := hT.orphan_mem c hc
    exact ⟨.inr hcT, by rw [hlevel c hcT]; exact hclevel.trans (Nat.lt_succ_self _)⟩

/-! ### What the operations do to the values -/

lemma holds_put (hT : T.Valid orphans) (ha : a ∈ T.nodes) (ha0 : T.level a = 0)
    (hak : T.Covers a k) {k' : κ} {v' : β} :
    (T.put a k v).Holds k' v' ↔ k' = k ∧ v' = v ∨ k' ≠ k ∧ T.Holds k' v' := by
  by_cases hk : k' = k
  · subst hk
    rw [(hT.put hak).holds_iff (T := T.put a k' v) ha ha0 hak]
    simp [put, eq_comm]
  · have hvalue : ∀ x, (T.put a k v).value x k' = T.value x k' := by
      intro x
      by_cases hx : x = a
      · simp [put, hx, hk]
      · simp [put, hx]
    simp only [Holds, hvalue, hk, false_and, ne_eq, not_false_eq_true, true_and, false_or]
    rfl

omit [LinearOrder κ] [OrderBot κ] in
@[simp] lemma holds_addKid : (T.addKid p c).Holds k v ↔ T.Holds k v := Iff.rfl

omit [OrderBot κ] in
lemma holds_splitAt (hr : r ∉ T.nodes) (ha : a ∈ T.nodes) :
    (T.splitAt a r h).Holds k v ↔ T.Holds k v := by
  have har : r ≠ a := (ne_of_mem_of_not_mem ha hr).symm
  constructor
  · rintro ⟨x, (rfl | hx), hx0, hxv⟩
    · rw [splitAt_level_right] at hx0
      rw [splitAt_value_right har, Option.ite_none_right_eq_some] at hxv
      exact ⟨a, ha, hx0, hxv.2⟩
    · rw [splitAt_level hr hx] at hx0
      refine ⟨x, hx, hx0, ?_⟩
      by_cases hxa : x = a
      · subst hxa
        rw [splitAt_value_self, Option.ite_none_right_eq_some] at hxv
        exact hxv.2
      · rwa [splitAt_value hxa (ne_of_mem_of_not_mem hx hr)] at hxv
  · rintro ⟨x, hx, hx0, hxv⟩
    by_cases hxa : x = a
    · subst hxa
      by_cases hk : k < h
      · exact ⟨x, .inr hx, by rwa [splitAt_level hr hx],
          by rw [splitAt_value_self, if_pos hk, hxv]⟩
      · exact ⟨r, .inl rfl, by rwa [splitAt_level_right],
          by rw [splitAt_value_right har, if_pos (not_lt.1 hk), hxv]⟩
    · exact ⟨x, .inr hx, by rwa [splitAt_level hr hx],
        by rwa [splitAt_value hxa (ne_of_mem_of_not_mem hx hr)]⟩

lemma holds_grow (hr : r ∉ T.nodes) : (T.grow a r).Holds k v ↔ T.Holds k v := by
  constructor
  · rintro ⟨x, (rfl | hx), hx0, hxv⟩
    · exact absurd hxv (by simp)
    · obtain ⟨hlevel, -, -, -, hvalue⟩ := grow_of_mem (a := a) hr hx
      exact ⟨x, hx, hlevel ▸ hx0, hvalue ▸ hxv⟩
  · rintro ⟨x, hx, hx0, hxv⟩
    obtain ⟨hlevel, -, -, -, hvalue⟩ := grow_of_mem (a := a) hr hx
    exact ⟨x, .inr hx, hlevel.trans hx0, hvalue ▸ hxv⟩

/-! ### The map a tree stands for -/

/-- The tree holds the map `M`. -/
def Represents (T : BLink κ α β) (M : κ → Option β) : Prop := ∀ k v, T.Holds k v ↔ M k = some v

variable {M : κ → Option β}

lemma Represents.put (hM : T.Represents M) (hT : T.Valid orphans) (ha : a ∈ T.nodes)
    (ha0 : T.level a = 0) (hak : T.Covers a k) :
    (T.put a k v).Represents (Function.update M k (some v)) := by
  intro k' v'
  rw [holds_put hT ha ha0 hak, hM k' v']
  by_cases hk : k' = k
  · simp [hk, eq_comm]
  · simp [hk]

omit [LinearOrder κ] [OrderBot κ] in
lemma Represents.addKid (hM : T.Represents M) : (T.addKid p c).Represents M := hM

omit [OrderBot κ] in
lemma Represents.splitAt (hM : T.Represents M) (hr : r ∉ T.nodes) (ha : a ∈ T.nodes) :
    (T.splitAt a r h).Represents M :=
  fun k v => (holds_splitAt hr ha).trans (hM k v)

lemma Represents.grow (hM : T.Represents M) (hr : r ∉ T.nodes) : (T.grow a r).Represents M :=
  fun k v => (holds_grow hr).trans (hM k v)

omit [DecidableEq α] in
/-- The value of a key is found in the node of level 0 that is responsible for it. -/
lemma Represents.value_eq (hM : T.Represents M) (hT : T.Valid orphans) (ha : a ∈ T.nodes)
    (ha0 : T.level a = 0) (hak : T.Covers a k) : T.value a k = M k := by
  refine Option.ext fun v => ?_
  rw [← hT.holds_iff ha ha0 hak, hM k v]

end Operations

end BLink

end TiPI
